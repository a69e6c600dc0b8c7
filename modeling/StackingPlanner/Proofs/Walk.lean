import StackingPlanner.Transition

/-!
# Walks

A walk makes choices one after another, each of them nothing or an action of
the schema that is executable where it is made.  What can be done from a state
depends only on the fluents that hold in it, and a goal that can be reached
within some steps can be reached with any more of them, since nothing may be
done at first.
-/

namespace StackingPlanner

namespace State

theorem eq_of_facts_eq {s t : State} (sameScope : s.scope = t.scope)
    (sameFacts : s.facts = t.facts) : s = t := by
  cases s
  cases t
  simp only at sameScope sameFacts
  rw [sameScope, sameFacts]

/-- Which literals hold depends only on the facts. -/
theorem satisfies_congr {s t : State} (same : s.facts = t.facts) (literals : List Literal) :
    s.satisfies literals = t.satisfies literals := by
  have sameHolds : s.holds = t.holds := by
    funext l
    simp only [holds, isTrue, same]
  rw [satisfies, satisfies, sameHolds]

theorem after_facts_congr {s t : State} (same : s.facts = t.facts) (choice : Choice) :
    (s.after choice).facts = (t.after choice).facts := by
  cases choice with
  | none => exact same
  | some a => simp only [after, bringAbout, same]

@[simp]
theorem after_none (s : State) : s.after none = s := rfl

@[simp]
theorem after_scope (s : State) (choice : Choice) : (s.after choice).scope = s.scope := by
  cases choice <;> rfl

end State

namespace Schema

/-- A choice that can be made in a state: nothing, or an action of the schema that is executable. -/
def Allows (schema : Schema) (s : State) : Choice → Prop
  | none => True
  | some a => a ∈ schema.actions ∧ a.isExecutable s = true

theorem allows_congr {schema : Schema} {s t : State} (same : s.facts = t.facts)
    (choice : Choice) : schema.Allows s choice ↔ schema.Allows t choice := by
  cases choice with
  | none => exact Iff.rfl
  | some a =>
      simp only [Allows, Action.isExecutable, State.satisfies_congr same]

/-- The candidates of a state are exactly the choices that can be made in it. -/
theorem mem_candidates_iff {schema : Schema} {s : State} {choice : Choice} :
    choice ∈ schema.candidates s ↔ schema.Allows s choice := by
  cases choice with
  | none => simp [candidates, Allows]
  | some a => simp [candidates, executable, Allows]

theorem eq_after_of_advance {schema : Schema} {checked : Bool} {s t : State} {choice : Choice}
    {step : Value} (advanced : schema.advance checked s choice step = .ok t) :
    t = s.after choice := by
  cases checked with
  | false =>
      cases advanced
      rfl
  | true =>
      simp only [advance, if_true, bind, Except.bind] at advanced
      split at advanced
      · cases advanced
      · split at advanced
        · cases advanced
        · cases advanced
          rfl

/-- Choices that lead from one state to another, each of which can be made where it is made. -/
inductive Walk (schema : Schema) : State → List Choice → State → Prop where
  | nil (s : State) : Walk schema s [] s
  | cons {s last : State} {choice : Choice} {choices : List Choice}
      (allowed : schema.Allows s choice) (rest : Walk schema (s.after choice) choices last) :
      Walk schema s (choice :: choices) last

namespace Walk

variable {schema : Schema} {s t u : State} {choices more : List Choice}

theorem append (first : Walk schema s choices t) (second : Walk schema t more u) :
    Walk schema s (choices ++ more) u := by
  induction first with
  | nil => exact second
  | cons allowed _ ih => exact .cons allowed (ih second)

theorem snoc (walk : Walk schema s choices t) {choice : Choice}
    (allowed : schema.Allows t choice) : Walk schema s (choices ++ [choice]) (t.after choice) :=
  walk.append (.cons allowed (.nil _))

theorem scope_eq (walk : Walk schema s choices t) : t.scope = s.scope := by
  induction walk with
  | nil => rfl
  | cons _ _ ih => rw [ih, State.after_scope]

/-- From a state with the same facts the same choices lead to a state with the same facts. -/
theorem congr {r : State} (walk : Walk schema s choices t) (same : s.facts = r.facts) :
    ∃ u, Walk schema r choices u ∧ t.facts = u.facts := by
  induction walk generalizing r with
  | nil => exact ⟨r, .nil r, same⟩
  | cons allowed _ ih =>
      obtain ⟨u, rest, sameLast⟩ := ih (State.after_facts_congr same _)
      exact ⟨u, .cons ((allows_congr same _).mp allowed) rest, sameLast⟩

theorem idle (s : State) (count : Nat) : Walk schema s (List.replicate count none) s := by
  induction count with
  | zero => exact .nil s
  | succ count ih => exact .cons trivial ih

end Walk

/-- The goal holds in a state to which some number of choices leads. -/
def Reaches (schema : Schema) (goal : List Literal) (s : State) (steps : Nat) : Prop :=
  ∃ choices last, choices.length = steps ∧ schema.Walk s choices last ∧
    last.satisfies goal = true

namespace Reaches

variable {schema : Schema} {goal : List Literal} {s t : State} {steps more : Nat}

theorem here (holds : s.satisfies goal = true) (steps : Nat) : schema.Reaches goal s steps :=
  ⟨List.replicate steps none, s, List.length_replicate, .idle s steps, holds⟩

theorem zero_iff : schema.Reaches goal s 0 ↔ s.satisfies goal = true := by
  constructor
  · rintro ⟨choices, last, none, walk, holds⟩
    cases List.length_eq_zero_iff.mp none
    cases walk
    exact holds
  · intro holds
    exact here holds 0

/-- The first of several steps is a choice that can be made. -/
theorem succ_iff : schema.Reaches goal s (steps + 1) ↔
    ∃ choice, schema.Allows s choice ∧ schema.Reaches goal (s.after choice) steps := by
  constructor
  · rintro ⟨choices, last, count, walk, holds⟩
    cases walk with
    | nil => cases count
    | @cons _ _ choice rest allowed walk =>
        exact ⟨choice, allowed, rest, last, Nat.succ.inj count, walk, holds⟩
  · rintro ⟨choice, allowed, rest, last, count, walk, holds⟩
    exact ⟨choice :: rest, last, congrArg Nat.succ count, .cons allowed walk, holds⟩

theorem congr (reaches : schema.Reaches goal s steps) (same : s.facts = t.facts) :
    schema.Reaches goal t steps := by
  obtain ⟨choices, last, count, walk, holds⟩ := reaches
  obtain ⟨other, sameWalk, sameLast⟩ := walk.congr same
  exact ⟨choices, other, count, sameWalk, State.satisfies_congr sameLast goal ▸ holds⟩

/-- What can be reached within some steps can be reached with more of them. -/
theorem mono (reaches : schema.Reaches goal s steps) (within : steps ≤ more) :
    schema.Reaches goal s more := by
  obtain ⟨choices, last, count, walk, holds⟩ := reaches
  refine ⟨List.replicate (more - steps) none ++ choices, last, ?_, (Walk.idle s _).append walk,
    holds⟩
  rw [List.length_append, List.length_replicate, count]
  omega

end Reaches

/-- No choice that can be made on a walk from a state is refused when it is made. -/
def Smooth (schema : Schema) (checked : Bool) (start : State) : Prop :=
  ∀ choices s, schema.Walk start choices s → ∀ choice, schema.Allows s choice →
    ∀ step, schema.advance checked s choice step = .ok (s.after choice)

/--
Choices that `advance` makes one after another from a step on, each of them
nothing or an action that is executable where it is made.
-/
inductive Course (schema : Schema) (checked : Bool) : Int → State → List Choice → State → Prop where
  | nil (step : Int) (s : State) : Course schema checked step s [] s
  | cons {step : Int} {s next last : State} {choice : Choice} {choices : List Choice}
      (allowed : schema.Allows s choice)
      (advanced : schema.advance checked s choice (.whole step) = .ok next)
      (rest : Course schema checked (step + 1) next choices last) :
      Course schema checked step s (choice :: choices) last

namespace Smooth

variable {schema : Schema} {checked : Bool} {start last : State} {choices : List Choice}

theorem advance (smooth : schema.Smooth checked start) {choice : Choice}
    (allowed : schema.Allows start choice) (step : Value) :
    schema.advance checked start choice step = .ok (start.after choice) :=
  smooth [] start (.nil start) choice allowed step

theorem after (smooth : schema.Smooth checked start) {choice : Choice}
    (allowed : schema.Allows start choice) : schema.Smooth checked (start.after choice) :=
  fun choices s walk => smooth (choice :: choices) s (.cons allowed walk)

/-- Where no choice is refused, `advance` makes exactly the choices of a walk. -/
theorem course_iff (smooth : schema.Smooth checked start) (step : Int) :
    schema.Course checked step start choices last ↔ schema.Walk start choices last := by
  constructor
  · intro course
    induction course with
    | nil _ s => exact .nil s
    | cons allowed advanced _ ih =>
        cases advanced.symm.trans (smooth.advance allowed _)
        exact .cons allowed (ih (smooth.after allowed))
  · intro walk
    induction walk generalizing step with
    | nil s => exact .nil step s
    | cons allowed _ ih =>
        exact .cons allowed (smooth.advance allowed _) (ih (smooth.after allowed) (step + 1))

end Smooth

end Schema

end StackingPlanner
