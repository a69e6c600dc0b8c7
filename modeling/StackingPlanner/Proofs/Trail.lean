import StackingPlanner.Proofs.Search.Leftmost

/-!
# Trails

A trail is a walk together with all the states that it comes to.  A timeline
unfolds from a state if it is the timeline of a trail: it starts in that state,
each choice can be made where it is made, and it leads to the next state.
-/

namespace StackingPlanner

@[simp]
theorem Timeline.horizon_ofSteps (s : State) (steps : Steps) :
    (Timeline.ofSteps s steps).horizon = steps.length + 1 := by
  rw [horizon, ofSteps, List.length_cons, List.length_map]

/--
A timeline that starts in a state and goes on by choices that can be made, each
of which leads to the next state.
-/
structure Timeline.Unfolds (t : Timeline) (schema : Schema) (start : State) : Prop where
  first : t.states[0]? = some start
  next : ∀ (i : Nat) (s : State) (choice : Choice), t.states[i]? = some s →
    t.choices[i]? = some choice →
      schema.Allows s choice ∧ t.states[i + 1]? = some (s.after choice)

namespace Schema

/-- Choices that lead from one state to another, each with the state after it. -/
inductive Trail (schema : Schema) : State → Steps → State → Prop where
  | nil (s : State) : Trail schema s [] s
  | cons {s last : State} {choice : Choice} {steps : Steps} (allowed : schema.Allows s choice)
      (onward : Trail schema (s.after choice) steps last) :
      Trail schema s ((choice, s.after choice) :: steps) last

namespace Trail

variable {schema : Schema} {s last : State} {steps : Steps}

theorem walk (trail : schema.Trail s steps last) :
    schema.Walk s (steps.map (·.1)) last := by
  induction trail with
  | nil s => exact .nil s
  | cons allowed _ ih => exact .cons allowed ih

theorem idle (schema : Schema) (s : State) (count : Nat) :
    schema.Trail s (List.replicate count (none, s)) s := by
  induction count with
  | zero => exact .nil s
  | succ count ih => exact .cons trivial ih

theorem finalState (trail : schema.Trail s steps last) :
    (Timeline.ofSteps s steps).finalState = .ok last := by
  induction trail with
  | nil => rfl
  | cons _ _ ih => exact ih

theorem unfolds (trail : schema.Trail s steps last) :
    (Timeline.ofSteps s steps).Unfolds schema s := by
  induction trail with
  | nil s => exact ⟨rfl, fun i t choice _ none => nomatch none⟩
  | cons allowed _ ih =>
      refine ⟨rfl, fun i t choice stateAt choiceAt => ?_⟩
      cases i with
      | zero =>
          cases stateAt
          cases choiceAt
          exact ⟨allowed, rfl⟩
      | succ i => exact ih.next i t choice stateAt choiceAt

end Trail

theorem Play.exists_trail {schema : Schema} {goal : List Literal} {s : State} {steps : Steps}
    (play : schema.Play goal s steps) :
    ∃ last, schema.Trail s steps last ∧ last.satisfies goal = true := by
  induction play with
  | @rest s holds count => exact ⟨s, .idle schema s count, holds⟩
  | move _ allowed _ ih =>
      obtain ⟨last, trail, holds⟩ := ih
      exact ⟨last, .cons allowed trail, holds⟩

end Schema

theorem Timeline.Unfolds.exists_trail {t : Timeline} {schema : Schema} {start : State}
    (unfolds : t.Unfolds schema start) :
    ∃ steps last, schema.Trail start steps last ∧ t = Timeline.ofSteps start steps := by
  obtain ⟨states, choices, fits⟩ := t
  -- By induction on the choices: what is left of a timeline unfolds from its next state.
  induction choices generalizing start states with
  | nil =>
      cases states with
      | nil => cases unfolds.first
      | cons s rest =>
          obtain rfl : s = start := Option.some.inj unfolds.first
          obtain rfl : rest = [] := List.length_eq_zero_iff.mp fits.symm
          exact ⟨[], s, .nil s, rfl⟩
  | cons choice choices ih =>
      cases states with
      | nil => cases unfolds.first
      | cons s rest =>
          obtain rfl : s = start := Option.some.inj unfolds.first
          obtain ⟨allowed, next⟩ := unfolds.next 0 s choice rfl rfl
          have onward : (⟨rest, choices, Nat.eq_sub_of_add_eq fits⟩ : Timeline).Unfolds schema
              (s.after choice) :=
            ⟨next, fun i u other stateAt choiceAt => unfolds.next (i + 1) u other stateAt choiceAt⟩
          obtain ⟨steps, last, trail, same⟩ := ih rest _ onward
          cases same
          exact ⟨_, last, .cons allowed trail, rfl⟩

end StackingPlanner
