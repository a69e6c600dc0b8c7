import StackingPlanner.Proofs.Search.Leftmost

/-!
# Timelines that solve a search

What has to hold of the timeline of a successful search, step by step, and that
it holds of what the plain search finds.
-/

namespace StackingPlanner

/--
A timeline of a number of steps that leads from a state to the goal: each choice
can be made, and `advance` makes it, which leads to the next state; no action is
made once the goal holds, and in the last state the goal holds.
-/
structure Timeline.Solves (t : Timeline) (schema : Schema) (checked : Bool) (goal : List Literal)
    (startStep : Int) (initial : State) (steps : Nat) : Prop where
  length : t.states.length = steps + 1
  first : t.states[0]? = some initial
  next : ∀ (i : Nat) (s : State) (choice : Choice),
    t.states[i]? = some s → t.choices[i]? = some choice → schema.Allows s choice ∧
      ∃ successor, t.states[i + 1]? = some successor ∧
        schema.advance checked s choice (.whole (startStep + i)) = .ok successor
  quiet : ∀ (i j : Nat) (s : State) (a : Action),
    t.states[i]? = some s → s.satisfies goal = true → t.choices[j]? = some (some a) → j < i
  last : ∃ s : State, t.states[steps]? = some s ∧ s.satisfies goal = true

namespace Timeline

variable {schema : Schema} {checked : Bool} {goal : List Literal} {s : State}

theorem solves_of_goal (smooth : schema.Smooth checked s) (holds : s.satisfies goal = true)
    (count : Nat) (step : Int) :
    (ofSteps s (List.replicate count (none, s))).Solves schema checked goal step s count := by
  have states : (ofSteps s (List.replicate count (none, s))).states =
      List.replicate (count + 1) s := by
    simp [ofSteps, List.replicate_succ]
  have choices : (ofSteps s (List.replicate count (none, s))).choices =
      List.replicate count none := by
    simp [ofSteps]
  have same : ∀ i t, (List.replicate (count + 1) s)[i]? = some t → t = s := fun i t found =>
    List.eq_of_mem_replicate (List.mem_of_getElem? found)
  constructor
  case length => rw [states, List.length_replicate]
  case first => rfl
  case next =>
    intro i t choice stateAt choiceAt
    rw [states] at stateAt ⊢
    obtain rfl := same i t stateAt
    rw [choices, List.getElem?_replicate] at choiceAt
    split at choiceAt
    · rename_i within
      cases choiceAt
      have idle : schema.Allows t none := trivial
      refine ⟨idle, t, ?_, smooth.advance idle _⟩
      rw [List.getElem?_replicate, if_pos (Nat.succ_lt_succ within)]
    · cases choiceAt
  case quiet =>
    intro i j t a _ _ choiceAt
    rw [choices] at choiceAt
    cases List.eq_of_mem_replicate (List.mem_of_getElem? choiceAt)
  case last =>
    refine ⟨s, ?_, holds⟩
    rw [states, List.getElem?_replicate, if_pos (Nat.lt_succ_self count)]

theorem solves_cons {choice : Choice} {steps : Steps} {step : Int}
    (smooth : schema.Smooth checked s) (unmet : s.satisfies goal = false)
    (allowed : schema.Allows s choice)
    (onward : (ofSteps (s.after choice) steps).Solves schema checked goal (step + 1)
      (s.after choice) steps.length) :
    (ofSteps s ((choice, s.after choice) :: steps)).Solves schema checked goal step s
      (steps.length + 1) := by
  constructor
  case length => exact congrArg Nat.succ onward.length
  case first => rfl
  case next =>
    intro i t other stateAt choiceAt
    cases i with
    | zero =>
        cases stateAt
        cases choiceAt
        exact ⟨allowed, s.after choice, rfl, smooth.advance allowed _⟩
    | succ i =>
        have later : step + ((i + 1 : Nat) : Int) = step + 1 + i := by omega
        rw [later]
        exact onward.next i t other stateAt choiceAt
  case quiet =>
    intro i j t a stateAt holds choiceAt
    cases i with
    | zero =>
        cases stateAt
        rw [unmet] at holds
        cases holds
    | succ i =>
        cases j with
        | zero => exact Nat.succ_pos i
        | succ j => exact Nat.succ_lt_succ (onward.quiet i j t a stateAt holds choiceAt)
  case last => exact onward.last

theorem solves_of_play {steps : Steps} (smooth : schema.Smooth checked s)
    (play : schema.Play goal s steps) (step : Int) :
    (ofSteps s steps).Solves schema checked goal step s steps.length := by
  induction play generalizing step with
  | rest holds count =>
      rw [List.length_replicate]
      exact solves_of_goal smooth holds count step
  | move unmet allowed _ ih =>
      exact solves_cons smooth unmet allowed (ih (smooth.after allowed) (step + 1))

end Timeline

end StackingPlanner
