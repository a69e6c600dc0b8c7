import StackingPlanner.Transition

/-!
# Timelines and plans

A timeline lists every state up to the horizon and the choice made at each
step before it.  A plan lists only the actions, each with its step.  Steps are
counted from one: the choice at step `t` leads from state `t` to state `t + 1`.
-/

namespace StackingPlanner

/-- Every state, and between any two consecutive ones the choice that led on. -/
structure Timeline where
  states : List State
  choices : List Choice
  fits : choices.length = states.length - 1

structure Plan where
  steps : List (Int × Action)

namespace Plan

def actions (p : Plan) : List Action := p.steps.map (·.2)

def length (p : Plan) : Nat := p.steps.length

def stepText (step : Int × Action) : String := toString step.1 ++ ": " ++ step.2.name

def lines (p : Plan) : List String := p.steps.map stepText

def emptyText : String := "<empty plan>"

def text (p : Plan) : String :=
  if p.steps.isEmpty then emptyText else String.intercalate "\n" p.lines

end Plan

namespace Timeline

/-- A timeline of states and choices, if their numbers fit. -/
def make (states : List State) (choices : List Choice) : Except Misuse Timeline :=
  if h : choices.length = states.length - 1 then .ok ⟨states, choices, h⟩
  else .error (.timelineShape states.length choices.length)

/-- The timeline that starts at a state and goes on by choices, each with the state after it. -/
def ofSteps (start : State) (steps : List (Choice × State)) : Timeline where
  states := start :: steps.map (·.2)
  choices := steps.map (·.1)
  fits := by simp

/--
The timeline with one more state and choice before all others.  Before a
timeline without states no choice is made.
-/
def precede (start : State) (choice : Choice) (t : Timeline) : Timeline :=
  if empty : t.states = [] then ⟨[start], [], rfl⟩
  else
    ⟨start :: t.states, choice :: t.choices, by
      have := t.fits
      have := List.length_pos_iff.2 empty
      simp
      omega⟩

def horizon (t : Timeline) : Nat := t.states.length

def finalState (t : Timeline) : Except Misuse State :=
  match t.states.getLast? with
  | some s => .ok s
  | none => .error .listIndex

/-- Whether a value is a number from one on that keeps to a bound. -/
def isStepWithin (step : Value) (isWithin : Number → Bool) : Except Misuse Bool := do
  let n ← step.takeNumber
  return Number.isAtMost (.whole 1) n && isWithin n

/-- The item of a list at a step, which must be a whole number from one on. -/
def itemAt {α : Type} (items : List α) (step : Value) : Except Misuse α :=
  match step.whole? with
  | none => .error .mismatch
  | some n =>
      match items[(n - 1).toNat]? with
      | some item => .ok item
      | none => .error .listIndex

def stateAt (t : Timeline) (step : Value) : Except Misuse State := do
  if ← isStepWithin step (·.isAtMost (.whole t.horizon)) then itemAt t.states step
  else throw (.stateStep step t.horizon)

/-- The choice at a step before the last state. -/
def choiceAt (t : Timeline) (step : Value) : Except Misuse Choice := do
  if ← isStepWithin step (·.isBelow (.whole t.horizon)) then itemAt t.choices step
  else throw (.choiceStep step t.horizon)

def positions {α : Type} (test : α → Bool) (l : List α) : List Nat :=
  (l.zipIdx 1).filterMap (fun entry => if test entry.1 then some entry.2 else none)

def idleSteps (t : Timeline) : List Nat := positions Option.isNone t.choices

def goalReachedAt (t : Timeline) (goal : List Literal) : Option Nat :=
  (t.states.findIdx? (·.satisfies goal)).map (· + 1)

def plan (t : Timeline) : Plan where
  steps := (t.choices.zipIdx 1).filterMap
    (fun entry => entry.1.map (fun action => ((entry.2 : Int), action)))

def factTexts (s : State) : List String := sorted (s.facts.toList.map Fluent.text)

def toValue (t : Timeline) : Value :=
  .object
    [("horizon", .whole t.horizon),
      ("states", .list (t.states.map (fun s => Value.texts (factTexts s)))),
      ("choices", .list (t.choices.map (Value.orNull (fun a => .text a.name))))]

end Timeline

end StackingPlanner
