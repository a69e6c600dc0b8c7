import StackingPlanner.Proofs.Tower.Schema
import Mathlib.Data.List.Infix

/-!
# Piles of discs

While the hand is empty, what rests on what can be written as piles, listed from
top to bottom.  The top of a pile can be carried onto another one.  Doing so
again and again pours the upper part of a pile onto another, in reverse order;
pouring it away and back again digs out a single disc.  Digging out one disc
after another turns a pile into a tower in any order that is wanted.
-/

namespace StackingPlanner

namespace Puzzle

namespace Tower

section Pairs

variable {α : Type} {a b x y : α} {l : List α}

theorem pair_infix_cons_cons_iff :
    [a, b] <:+: x :: y :: l ↔ (a = x ∧ b = y) ∨ [a, b] <:+: y :: l := by
  rw [List.infix_cons_iff]
  simp [List.cons_prefix_cons]

theorem mem_of_pair_infix_cons (above : [a, b] <:+: x :: l) : b ∈ l := by
  rcases List.infix_cons_iff.mp above with first | later
  · have next := (List.cons_prefix_cons.mp first).2
    exact next.subset (List.mem_singleton_self b)
  · exact later.subset (by simp)

end Pairs

/-- The hand is empty, and objects rest on each other just as in some piles of discs and pegs. -/
structure Piled (discs pegs : List String) (schema : Schema) (s : State)
    (piles : List (List String)) : Prop where
  sane : schema.Sane s
  free : .handEmpty ∈ s.facts
  apart : piles.flatten.Nodup
  known : ∀ x ∈ piles.flatten, x ∈ discs ∨ x ∈ pegs
  rests_iff : ∀ x y, s.RestsOn x y ↔ ∃ pile ∈ piles, [x, y] <:+: pile

variable {discs pegs : List String} {schema : Schema} {s : State}
  {above upper lower tower : List String} {piles others : List (List String)} {x z : String}

theorem Piled.perm (piled : Piled discs pegs schema s piles) (same : piles.Perm others) :
    Piled discs pegs schema s others where
  sane := piled.sane
  free := piled.free
  apart := same.flatten.nodup_iff.mp piled.apart
  known x hx := piled.known x (same.flatten.mem_iff.mpr hx)
  rests_iff x y := by simpa only [same.mem_iff] using piled.rests_iff x y

theorem Piled.bare (piled : Piled discs pegs schema s ((x :: lower) :: others)) (w : String) :
    ¬ s.RestsOn w x := by
  intro carried
  obtain ⟨pile, listed, above⟩ := (piled.rests_iff w x).mp carried
  have once := piled.apart
  rw [List.flatten_cons, List.cons_append, List.nodup_cons] at once
  apply once.1
  rcases List.mem_cons.mp listed with rfl | listed
  · exact List.mem_append_left _ (mem_of_pair_infix_cons above)
  · exact List.mem_append_right _ (List.mem_flatten_of_mem listed (above.subset (by simp)))

variable (isSchema : IsSchema discs pegs schema)

include isSchema

/-- The top of a pile can be carried onto another pile. -/
theorem Piled.exists_move
    (piled : Piled discs pegs schema s ((x :: lower) :: (z :: above) :: others))
    (onDisc : lower ≠ []) :
    ∃ t, schema.Leads s t ∧
      Piled discs pegs schema t (lower :: (x :: z :: above) :: others) := by
  obtain ⟨y, below, rfl⟩ := List.exists_cons_of_ne_nil onDisc
  have swapped := piled.perm (.swap _ _ _)
  have once : (x :: ((y :: below) :: (z :: above) :: others).flatten).Nodup := piled.apart
  have gone : ∀ {b}, ∀ pile ∈ (y :: below) :: (z :: above) :: others, ¬ [x, b] <:+: pile := by
    intro b pile listed still
    exact (List.nodup_cons.mp once).1 (List.mem_flatten_of_mem listed (still.subset (by simp)))
  have first : [x, y] <:+: x :: y :: below := pair_infix_cons_cons_iff.mpr (.inl ⟨rfl, rfl⟩)
  have placed : s.RestsOn x y := (piled.rests_iff x y).mpr ⟨_, List.mem_cons_self, first⟩
  have differ : x ≠ z := by
    rintro rfl
    exact (List.nodup_cons.mp once).1 (by simp)
  obtain ⟨t, leads, sane, free, moved⟩ := isSchema.exists_carry piled.sane piled.free placed
    (piled.known z (by simp)) differ piled.bare (piled.perm (.swap _ _ _)).bare
  have order : ((y :: below) :: (x :: z :: above) :: others).flatten.Perm
      (x :: ((y :: below) :: (z :: above) :: others).flatten) := by
    simp only [List.flatten_cons, List.cons_append]
    exact @List.perm_middle _ x (y :: below) _
  refine ⟨t, leads, sane, free, order.nodup_iff.mpr once, ?_, fun a b => ?_⟩
  · exact fun w hw => piled.known w (order.mem_iff.mp hw)
  · rw [moved, piled.rests_iff]
    by_cases same : a = x
    · subst same
      have nowhere : ¬ ∃ pile ∈ (y :: below) :: (z :: above) :: others, [a, b] <:+: pile := by
        rintro ⟨pile, listed, still⟩
        exact gone pile listed still
      simp only [List.exists_mem_cons_iff, pair_infix_cons_cons_iff, not_or] at nowhere ⊢
      simp [nowhere]
    · simp only [List.exists_mem_cons_iff, pair_infix_cons_cons_iff]
      simp [same]

/-- The upper part of a pile can be poured onto another pile. -/
theorem Piled.exists_pour
    (piled : Piled discs pegs schema s ((upper ++ lower) :: (z :: above) :: others))
    (onDisc : lower ≠ []) :
    ∃ t, schema.Leads s t ∧
      Piled discs pegs schema t (lower :: (upper.reverse ++ z :: above) :: others) := by
  induction upper generalizing s z above with
  | nil => exact ⟨s, .refl s, piled⟩
  | cons x upper ih =>
      obtain ⟨t, carried, piled⟩ :=
        piled.exists_move isSchema (List.append_ne_nil_of_right_ne_nil upper onDisc)
      obtain ⟨u, poured, piled⟩ := ih piled
      refine ⟨u, carried.trans poured, ?_⟩
      rw [List.reverse_cons, List.append_assoc]
      exact piled

/-- With a bare peg beside it a disc anywhere in a pile can be brought to another pile. -/
theorem Piled.exists_dig {peg : String}
    (piled : Piled discs pegs schema s
      ((upper ++ x :: lower) :: [peg] :: (z :: above) :: others))
    (onDisc : lower ≠ []) :
    ∃ t, schema.Leads s t ∧
      Piled discs pegs schema t ((upper ++ lower) :: [peg] :: (x :: z :: above) :: others) := by
  obtain ⟨y, below, rfl⟩ := List.exists_cons_of_ne_nil onDisc
  obtain ⟨t, away, piled⟩ := piled.exists_pour isSchema (List.cons_ne_nil x _)
  obtain ⟨u, carried, piled⟩ :=
    (piled.perm ((List.Perm.swap _ _ _).cons _)).exists_move isSchema (List.cons_ne_nil y below)
  have last : ((y :: below) :: (x :: z :: above) :: (upper.reverse ++ [peg]) :: others).Perm
      ((upper.reverse ++ [peg]) :: (y :: below) :: (x :: z :: above) :: others) :=
    @List.perm_middle _ _ [_, _] _
  obtain ⟨v, back, piled⟩ := (piled.perm last).exists_pour isSchema (List.cons_ne_nil peg [])
  rw [List.reverse_reverse] at piled
  exact ⟨v, (away.trans carried).trans back, piled.perm (.swap _ _ _)⟩

/-- With a bare peg beside it a pile can be rebuilt on another pile, in any order of its discs. -/
theorem Piled.exists_rebuild {floor peg : String} {stock : List String}
    (piled : Piled discs pegs schema s ((stock ++ [floor]) :: [peg] :: (z :: above) :: others))
    (same : tower.Perm stock) :
    ∃ t, schema.Leads s t ∧
      Piled discs pegs schema t ([floor] :: [peg] :: (tower ++ z :: above) :: others) := by
  induction tower using List.reverseRecOn generalizing s stock z above with
  | nil =>
      rw [List.nil_perm.mp same] at piled
      exact ⟨s, .refl s, piled⟩
  | append_singleton tower x ih =>
      have listed : x ∈ stock := same.mem_iff.mp (by simp)
      obtain ⟨upper, lower, rfl⟩ := List.append_of_mem listed
      rw [List.append_assoc, List.cons_append] at piled
      obtain ⟨t, dug, piled⟩ := piled.exists_dig isSchema (by simp : lower ++ [floor] ≠ [])
      rw [← List.append_assoc] at piled
      have rest : tower.Perm (upper ++ lower) := by
        have front := (List.perm_append_singleton x tower).symm.trans (same.trans List.perm_middle)
        exact front.cons_inv
      obtain ⟨u, rebuilt, piled⟩ := ih piled rest
      refine ⟨u, dug.trans rebuilt, ?_⟩
      rw [List.append_assoc, List.singleton_append]
      exact piled

end Tower

end Puzzle

end StackingPlanner
