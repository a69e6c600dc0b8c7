import Mathlib.Data.List.Forall2
import Mathlib.Tactic.Common

/-!
# Computations that may fail

A sequence of computations succeeds if each of them does, and fails where the
first of them fails.  The same is true of one computation for each item of a
list.
-/

namespace Except

variable {ε α β : Type}

theorem exists_of_bind_eq_ok {first : Except ε α} {next : α → Except ε β} {b : β}
    (succeeds : (first >>= next) = .ok b) :
    ∃ a, first = .ok a ∧ next a = .ok b := by
  cases first with
  | error e => cases succeeds
  | ok a => exact ⟨a, rfl, succeeds⟩

theorem bind_eq_error_iff {first : Except ε α} {next : α → Except ε β}
    {e : ε} : (first >>= next) = .error e ↔
      first = .error e ∨ ∃ a, first = .ok a ∧ next a = .error e := by
  cases first with
  | error other =>
      change Except.error other = .error e ↔ _
      simp
  | ok a =>
      change next a = .error e ↔ _
      simp

theorem exists_of_map_eq_ok {result : Except ε α} {f : α → β} {b : β}
    (mapped : result.map f = .ok b) : ∃ a, result = .ok a ∧ f a = b := by
  cases result with
  | error e => cases mapped
  | ok a => exact ⟨a, rfl, Except.ok.inj mapped⟩

theorem forM_eq_ok_iff {check : α → Except ε Unit} (items : List α) :
    items.forM check = .ok () ↔ ∀ a ∈ items, check a = .ok () := by
  induction items with
  | nil => exact ⟨fun _ => by simp, fun _ => rfl⟩
  | cons a rest ih =>
      constructor
      · intro succeeds
        obtain ⟨_, first, later⟩ := exists_of_bind_eq_ok succeeds
        exact List.forall_mem_cons.mpr ⟨first, ih.mp later⟩
      · intro each
        obtain ⟨first, later⟩ := List.forall_mem_cons.mp each
        rw [List.forM, first]
        exact ih.mpr later

theorem exists_mapM_eq_ok {read : α → Except ε β} {items : List α}
    (each : ∀ a ∈ items, ∃ b, read a = .ok b) : ∃ results, items.mapM read = .ok results := by
  induction items with
  | nil => exact ⟨[], rfl⟩
  | cons item rest ih =>
      obtain ⟨first, here⟩ := each item List.mem_cons_self
      obtain ⟨others, later⟩ := ih (fun a member => each a (List.mem_cons_of_mem _ member))
      refine ⟨first :: others, ?_⟩
      rw [List.mapM_cons, here, later]
      rfl

theorem mapM_eq_ok_iff {read : α → Except ε β} {items : List α}
    {results : List β} :
    items.mapM read = .ok results ↔ List.Forall₂ (fun a b => read a = .ok b) items results := by
  induction items generalizing results with
  | nil =>
      change Except.ok [] = .ok results ↔ _
      rw [Except.ok.injEq, List.forall₂_nil_left_iff, eq_comm]
  | cons item rest ih =>
      rw [List.mapM_cons, List.forall₂_cons_left_iff]
      constructor
      · intro succeeds
        obtain ⟨first, here, succeeds⟩ := exists_of_bind_eq_ok succeeds
        obtain ⟨others, later, succeeds⟩ := exists_of_bind_eq_ok succeeds
        cases succeeds
        exact ⟨first, others, here, ih.mp later, rfl⟩
      · rintro ⟨first, others, here, later, rfl⟩
        rw [here, ih.mpr later]
        rfl

theorem mapM_map_eq_ok {write : β → α} {read : α → Except ε β}
    {items : List β} (each : ∀ b ∈ items, read (write b) = .ok b) :
    (items.map write).mapM read = .ok items := by
  rw [mapM_eq_ok_iff, List.forall₂_map_left_iff, List.forall₂_same]
  exact each

theorem exists_of_mapM_eq_ok {read : α → Except ε β} {items : List α}
    {results : List β} (succeeds : items.mapM read = .ok results) {b : β} (member : b ∈ results) :
    ∃ a ∈ items, read a = .ok b := by
  have each := mapM_eq_ok_iff.mp succeeds
  induction each with
  | nil => cases member
  | cons here others ih =>
      rcases List.mem_cons.mp member with rfl | later
      · exact ⟨_, List.mem_cons_self, here⟩
      · obtain ⟨a, listed, found⟩ := ih (mapM_eq_ok_iff.mpr others) later
        exact ⟨a, List.mem_cons_of_mem _ listed, found⟩

/-- What reading an item does not change is the same in all results. -/
theorem map_of_mapM_eq_ok {γ : Type} {read : α → Except ε β} {items : List α}
    {results : List β} (succeeds : items.mapM read = .ok results) {before : α → γ} {after : β → γ}
    (keeps : ∀ a b, read a = .ok b → after b = before a) :
    results.map after = items.map before := by
  have each := mapM_eq_ok_iff.mp succeeds
  rw [← List.forall₂_eq_eq_eq, List.forall₂_map_left_iff, List.forall₂_map_right_iff]
  exact (each.imp keeps).flip

end Except
