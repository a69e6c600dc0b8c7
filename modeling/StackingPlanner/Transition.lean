import StackingPlanner.Schema.Sanity

/-!
# Transitions

What an action brings about holds at the next step; every fluent that it does
not mention keeps its value.  Without an action everything stays as it is.
-/

namespace StackingPlanner

namespace State

def mentions (effects : List Literal) (f : Fluent) : Bool := effects.any (fun l => l.fluent = f)

def bringAbout (s : State) (effects : List Literal) : State where
  scope := s.scope
  facts := (s.facts.filter (fun f => !mentions effects f)).insertAll
    ((effects.filter (·.positive)).map (·.fluent))

def after (s : State) : Choice → State
  | none => s
  | some a => s.bringAbout a.effects.toList

end State

namespace Action

def isExecutable (a : Action) (s : State) : Bool := s.satisfies a.preconditions.toList

def missing (a : Action) (s : State) : List Literal := s.missing a.preconditions.toList

end Action

namespace Schema

def executable (schema : Schema) (s : State) : List Action :=
  schema.actions.filter (·.isExecutable s)

/-- The choices at a state: nothing first, then every executable action in order. -/
def candidates (schema : Schema) (s : State) : List Choice :=
  none :: (schema.executable s).map some

def checkExecutable (s : State) (choice : Choice) (step : Value) : Except Failure Unit :=
  match choice with
  | none => .ok ()
  | some a =>
      if a.isExecutable s then .ok ()
      else .error (.unmetPreconditions a.name (a.missing s) step s.line)

def nextStep (step : Value) : Value := step.next?.getD .null

/-- Check the state that a choice led to; nothing is checked if nothing occurred. -/
def checkSuccessor (schema : Schema) (successor : State) (choice : Choice) (step : Value) :
    Except Failure Unit :=
  match choice with
  | none => .ok ()
  | some a => schema.verify successor (nextStep step) (some a)

/-- The state after a choice, with the checks before and after it if these are wanted. -/
def advance (schema : Schema) (checked : Bool) (s : State) (choice : Choice)
    (step : Value) : Except Failure State := do
  if checked then checkExecutable s choice step
  let successor := s.after choice
  if checked then schema.checkSuccessor successor choice step
  return successor

end Schema

/-- A walk through states that counts its transitions. -/
structure Walker where
  schema : Schema
  checked : Bool
  transitions : Nat := 0

namespace Walker

/--
Make a transition.  It counts unless its action was not executable, even if
the state that it leads to is then refused.  After a checked action the next
step must be known.
-/
def advance (w : Walker) (s : State) (choice : Choice) (step : Value) :
    Except Fault State × Walker :=
  let refused := w.checked &&
    (match Schema.checkExecutable s choice step with
      | .ok _ => false
      | .error _ => true)
  let outcome :=
    if !refused && w.checked && choice.isSome && step.next?.isNone then .error Misuse.mismatch
    else Fault.lift (w.schema.advance w.checked s choice step)
  (outcome, if refused then w else { w with transitions := w.transitions + 1 })

end Walker

end StackingPlanner
