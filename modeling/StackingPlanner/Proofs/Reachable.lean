import Mathlib.Data.Finset.Card
import Mathlib.Data.Finset.Union
import StackingPlanner.Proofs.Walk

/-!
# Reachable states

The states to which a number of choices can lead form a finite set.  Since
nothing may be done at any step, it is the set of the states to which at most so
many choices lead, and it grows with their number.
-/

namespace StackingPlanner

theorem length_le_card_of_nodup {α : Type} {l : List α} {s : Finset α} (distinct : l.Nodup)
    (within : ∀ a ∈ l, a ∈ s) : l.length ≤ s.card :=
  Multiset.card_le_card ((Multiset.le_iff_subset (Multiset.coe_nodup.mpr distinct)).mpr within)

namespace Schema

/-- The states to which a number of choices can lead. -/
def reachable (schema : Schema) : Nat → State → Finset State
  | 0, s => {s}
  | steps + 1, s =>
      (schema.candidates s).toFinset.biUnion (fun choice => schema.reachable steps (s.after choice))

variable {schema : Schema} {s t : State} {steps : Nat}

theorem mem_reachable_iff_walk : t ∈ schema.reachable steps s ↔
    ∃ choices, schema.Walk s choices t ∧ choices.length = steps := by
  induction steps generalizing s with
  | zero =>
      rw [reachable, Finset.mem_singleton]
      constructor
      · rintro rfl
        exact ⟨[], .nil t, rfl⟩
      · rintro ⟨choices, walk, none⟩
        cases List.length_eq_zero_iff.mp none
        cases walk
        rfl
  | succ steps ih =>
      simp only [reachable, Finset.mem_biUnion, List.mem_toFinset, mem_candidates_iff, ih]
      constructor
      · rintro ⟨choice, allowed, choices, walk, length⟩
        exact ⟨choice :: choices, .cons allowed walk, congrArg Nat.succ length⟩
      · rintro ⟨choices, walk, length⟩
        cases walk with
        | nil => cases length
        | @cons _ _ choice rest allowed walk =>
            exact ⟨choice, allowed, rest, walk, Nat.succ.inj length⟩

/-- Exactly the states to which at most so many choices lead are reachable. -/
theorem mem_reachable_iff : t ∈ schema.reachable steps s ↔
    ∃ choices, schema.Walk s choices t ∧ choices.length ≤ steps := by
  rw [mem_reachable_iff_walk]
  constructor
  · rintro ⟨choices, walk, length⟩
    exact ⟨choices, walk, Nat.le_of_eq length⟩
  · rintro ⟨choices, walk, within⟩
    refine ⟨List.replicate (steps - choices.length) none ++ choices,
      (Walk.idle s _).append walk, ?_⟩
    rw [List.length_append, List.length_replicate]
    omega

theorem self_mem_reachable (schema : Schema) (steps : Nat) (s : State) :
    s ∈ schema.reachable steps s :=
  mem_reachable_iff.mpr ⟨[], .nil s, Nat.zero_le _⟩

theorem reachable_card_pos (schema : Schema) (steps : Nat) (s : State) :
    0 < (schema.reachable steps s).card :=
  Finset.card_pos.mpr ⟨s, self_mem_reachable schema steps s⟩

end Schema

end StackingPlanner
