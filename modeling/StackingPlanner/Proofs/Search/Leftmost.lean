import StackingPlanner.Plan
import StackingPlanner.Proofs.Walk

/-!
# The plain search

The search by plain recursion stays where the goal holds, and otherwise takes
the first candidate from which it succeeds with one step less.  It succeeds
exactly if the goal can be reached in the given number of steps, and what it
finds is a play: choices that can be made, up to the first state in which the
goal holds, and nothing after it.
-/

namespace StackingPlanner

abbrev Steps := List (Choice × State)

namespace Schema

/-- The first of several choices from whose successor a search finds steps, with these. -/
def tryEach (search : State → Option Steps) (s : State) (choices : List Choice) : Option Steps :=
  choices.findSome? (fun choice =>
    (search (s.after choice)).map (fun steps => (choice, s.after choice) :: steps))

/--
The plain search: from a state in which the goal holds nothing is done any
more; from any other state the first candidate from which the search succeeds
with one step less is chosen.
-/
def leftmost? (schema : Schema) (goal : List Literal) : Nat → State → Option Steps
  | 0, s => if s.satisfies goal then some [] else none
  | steps + 1, s =>
      if s.satisfies goal then some (List.replicate (steps + 1) (none, s))
      else tryEach (leftmost? schema goal steps) s (schema.candidates s)

section TryEach

variable {search : State → Option Steps} {s : State} {choices : List Choice}

@[simp]
theorem tryEach_nil : tryEach search s [] = none := rfl

theorem tryEach_cons_of_none {choice : Choice} (fails : search (s.after choice) = none) :
    tryEach search s (choice :: choices) = tryEach search s choices := by
  simp [tryEach, fails]

theorem tryEach_cons_of_some {choice : Choice} {steps : Steps}
    (found : search (s.after choice) = some steps) :
    tryEach search s (choice :: choices) = some ((choice, s.after choice) :: steps) := by
  simp [tryEach, found]

theorem tryEach_append_of_none {failed : List Choice}
    (fails : ∀ choice ∈ failed, search (s.after choice) = none) :
    tryEach search s (failed ++ choices) = tryEach search s choices := by
  induction failed with
  | nil => rfl
  | cons choice failed ih =>
      rw [List.cons_append, tryEach_cons_of_none (fails choice List.mem_cons_self)]
      exact ih (fun other member => fails other (List.mem_cons_of_mem _ member))

theorem tryEach_eq_none_iff :
    tryEach search s choices = none ↔ ∀ choice ∈ choices, search (s.after choice) = none := by
  simp [tryEach, List.findSome?_eq_none_iff]

theorem tryEach_isSome_iff :
    (tryEach search s choices).isSome = true ↔
      ∃ choice, choice ∈ choices ∧ (search (s.after choice)).isSome = true := by
  simp [tryEach, List.findSome?_isSome_iff]

/-- What is found begins with the first choice from which the search succeeds. -/
theorem tryEach_eq_some_iff {found : Steps} :
    tryEach search s choices = some found ↔
      ∃ failed choice untried steps, choices = failed ++ choice :: untried ∧
        (∀ other ∈ failed, search (s.after other) = none) ∧
        search (s.after choice) = some steps ∧ found = (choice, s.after choice) :: steps := by
  constructor
  · intro success
    induction choices with
    | nil => cases success
    | cons choice choices ih =>
        cases result : search (s.after choice) with
        | some steps =>
            rw [tryEach_cons_of_some result] at success
            exact ⟨[], choice, choices, steps, rfl, by simp, result,
              (Option.some.inj success).symm⟩
        | none =>
            rw [tryEach_cons_of_none result] at success
            obtain ⟨failed, later, untried, steps, split, fails, taken, shape⟩ := ih success
            refine ⟨choice :: failed, later, untried, steps, by rw [split, List.cons_append], ?_,
              taken, shape⟩
            intro other member
            rcases List.mem_cons.mp member with rfl | member
            · exact result
            · exact fails other member
  · rintro ⟨failed, choice, untried, steps, rfl, fails, taken, rfl⟩
    rw [tryEach_append_of_none fails, tryEach_cons_of_some taken]

end TryEach

section Leftmost

variable {schema : Schema} {goal : List Literal} {s t : State} {steps : Nat}

theorem leftmost?_of_goal (holds : s.satisfies goal = true) (steps : Nat) :
    schema.leftmost? goal steps s = some (List.replicate steps (none, s)) := by
  cases steps <;> simp [leftmost?, holds]

theorem leftmost?_zero_of_not (unmet : s.satisfies goal = false) :
    schema.leftmost? goal 0 s = none := by
  simp [leftmost?, unmet]

theorem leftmost?_succ_of_not (unmet : s.satisfies goal = false) :
    schema.leftmost? goal (steps + 1) s =
      tryEach (schema.leftmost? goal steps) s (schema.candidates s) := by
  simp [leftmost?, unmet]

/-- The plain search succeeds exactly if the goal can be reached. -/
theorem leftmost?_isSome_iff :
    (schema.leftmost? goal steps s).isSome = true ↔ schema.Reaches goal s steps := by
  induction steps generalizing s with
  | zero =>
      rw [Reaches.zero_iff, leftmost?]
      cases s.satisfies goal <;> simp
  | succ steps ih =>
      cases holds : s.satisfies goal with
      | true =>
          rw [leftmost?_of_goal holds]
          exact ⟨fun _ => .here holds _, fun _ => rfl⟩
      | false =>
          rw [leftmost?_succ_of_not holds, Reaches.succ_iff, tryEach_isSome_iff]
          simp only [mem_candidates_iff, ih]

theorem leftmost?_eq_none_iff :
    schema.leftmost? goal steps s = none ↔ ¬ schema.Reaches goal s steps := by
  rw [← leftmost?_isSome_iff, Option.not_isSome_iff_eq_none]

/-- A search that fails fails with fewer steps from every state with the same facts. -/
theorem leftmost?_none_of_le {fewer : Nat} (fails : schema.leftmost? goal steps s = none)
    (same : t.facts = s.facts) (within : fewer ≤ steps) :
    schema.leftmost? goal fewer t = none := by
  rw [leftmost?_eq_none_iff] at fails ⊢
  intro reaches
  exact fails ((reaches.congr same).mono within)

/-- With a step more, the plain search does nothing first and then what it did before. -/
theorem leftmost?_succ_of_some {found : Steps}
    (result : schema.leftmost? goal steps s = some found) :
    schema.leftmost? goal (steps + 1) s = some ((none, s) :: found) := by
  cases holds : s.satisfies goal with
  | true =>
      rw [leftmost?_of_goal holds] at result
      cases result
      exact leftmost?_of_goal holds (steps + 1)
  | false =>
      rw [leftmost?_succ_of_not holds]
      exact tryEach_cons_of_some result

theorem leftmost?_add_of_some {found : Steps}
    (result : schema.leftmost? goal steps s = some found) (more : Nat) :
    schema.leftmost? goal (steps + more) s = some (List.replicate more (none, s) ++ found) := by
  induction more with
  | zero => exact result
  | succ more ih => exact leftmost?_succ_of_some ih

end Leftmost

/--
Steps that can be made from a state, up to the first state in which the goal
holds; after it nothing is done.
-/
inductive Play (schema : Schema) (goal : List Literal) : State → Steps → Prop where
  | rest {s : State} (holds : s.satisfies goal = true) (count : Nat) :
      Play schema goal s (List.replicate count (none, s))
  | move {s : State} {choice : Choice} {steps : Steps} (unmet : s.satisfies goal = false)
      (allowed : schema.Allows s choice) (onward : Play schema goal (s.after choice) steps) :
      Play schema goal s ((choice, s.after choice) :: steps)

/-- What the plain search finds is a play with the given number of steps. -/
theorem leftmost?_play {schema : Schema} {goal : List Literal} {s : State} {count : Nat}
    {steps : Steps} (found : schema.leftmost? goal count s = some steps) :
    schema.Play goal s steps ∧ steps.length = count := by
  induction count generalizing s steps with
  | zero =>
      cases holds : s.satisfies goal with
      | true =>
          rw [leftmost?_of_goal holds] at found
          cases found
          exact ⟨.rest holds 0, rfl⟩
      | false =>
          rw [leftmost?_zero_of_not holds] at found
          cases found
  | succ count ih =>
      cases holds : s.satisfies goal with
      | true =>
          rw [leftmost?_of_goal holds] at found
          cases found
          exact ⟨.rest holds (count + 1), List.length_replicate⟩
      | false =>
          rw [leftmost?_succ_of_not holds] at found
          obtain ⟨failed, choice, untried, rest, split, _, taken, rfl⟩ :=
            tryEach_eq_some_iff.mp found
          obtain ⟨play, length⟩ := ih taken
          have allowed : schema.Allows s choice := mem_candidates_iff.mp (by simp [split])
          exact ⟨.move holds allowed play, congrArg Nat.succ length⟩

end Schema

end StackingPlanner
