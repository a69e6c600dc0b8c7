import StackingPlanner.Proofs.Document.Keys
import StackingPlanner.Proofs.Number.Digits

/-!
# What can be shown

A value can be shown in a message unless a whole number in it has too many
digits or its containers are nested too deeply, and then so can whatever is in
it.  Texts are read within the same limits, so a value that was read from a text
can be shown.
-/

namespace StackingPlanner

namespace Value

/-- A value that can be shown with room for so many containers within each other. -/
def Fits (room : Nat) (value : Value) : Prop := value.excess? room = none

variable {room more : Nat} {value : Value} {items : List Value} {entries : Entries} {key : String}

theorem itemsExcess?_eq_none_iff :
    itemsExcess? room items = none ↔ ∀ item ∈ items, item.Fits room := by
  induction items with
  | nil => simp [itemsExcess?]
  | cons item rest ih =>
      rw [itemsExcess?, Option.or_eq_none_iff, ih, List.forall_mem_cons]
      rfl

theorem entriesExcess?_eq_none_iff :
    entriesExcess? room entries = none ↔ ∀ entry ∈ entries, entry.2.Fits room := by
  induction entries with
  | nil => simp [entriesExcess?]
  | cons entry rest ih =>
      rw [entriesExcess?, Option.or_eq_none_iff, ih, List.forall_mem_cons]
      rfl

theorem fits_whole_iff {n : Int} : (Value.number (.whole n)).Fits room ↔ Number.Short n := by
  unfold Fits excess?
  split <;> simp_all

theorem fits_list_iff :
    (Value.list items).Fits room ↔ room ≠ 0 ∧ ∀ item ∈ items, item.Fits (room - 1) := by
  unfold Fits
  rw [excess?]
  split
  · simp_all
  · simp_all [itemsExcess?_eq_none_iff, Fits]

theorem fits_object_iff :
    (Value.object entries).Fits room ↔ room ≠ 0 ∧ ∀ entry ∈ entries, entry.2.Fits (room - 1) := by
  unfold Fits
  rw [excess?]
  split
  · simp_all
  · simp_all [entriesExcess?_eq_none_iff, Fits]

mutual

/-- With more room a value still fits. -/
theorem Fits.mono : ∀ {value : Value} {room more : Nat}, room ≤ more → value.Fits room →
    value.Fits more
  | .null, _, _, _, _ | .bool _, _, _, _, _ | .text _, _, _, _, _
  | .number (.real _), _, _, _, _ => rfl
  | .number (.whole _), _, _, _, fits => fits_whole_iff.mpr (fits_whole_iff.mp fits)
  | .list items, _, _, le, fits => by
      obtain ⟨some, each⟩ := fits_list_iff.mp fits
      exact fits_list_iff.mpr ⟨by omega, Fits.mono_items items (by omega) each⟩
  | .object entries, _, _, le, fits => by
      obtain ⟨some, each⟩ := fits_object_iff.mp fits
      exact fits_object_iff.mpr ⟨by omega, Fits.mono_entries entries (by omega) each⟩

theorem Fits.mono_items : ∀ (items : List Value) {room more : Nat}, room ≤ more →
    (∀ item ∈ items, item.Fits room) → ∀ item ∈ items, item.Fits more
  | [], _, _, _, _ => by simp
  | _ :: rest, _, _, le, each => by
      obtain ⟨here, others⟩ := List.forall_mem_cons.mp each
      exact List.forall_mem_cons.mpr ⟨Fits.mono le here, Fits.mono_items rest le others⟩

theorem Fits.mono_entries : ∀ (entries : List (String × Value)) {room more : Nat}, room ≤ more →
    (∀ entry ∈ entries, entry.2.Fits room) → ∀ entry ∈ entries, entry.2.Fits more
  | [], _, _, _, _ => by simp
  | (_, _) :: rest, _, _, le, each => by
      obtain ⟨here, others⟩ := List.forall_mem_cons.mp each
      exact List.forall_mem_cons.mpr ⟨Fits.mono le here, Fits.mono_entries rest le others⟩

end

/-! ## Parts of what can be shown -/

theorem shown_whole_iff {n : Int} : (Value.whole n).Shown ↔ Number.Short n := fits_whole_iff

theorem Shown.mem_list (shown : (Value.list items).Shown) : ∀ item ∈ items, item.Shown :=
  fun item member => Fits.mono (Nat.sub_le _ _) ((fits_list_iff.mp shown).2 item member)

theorem Shown.mem_object (shown : (Value.object entries).Shown) :
    ∀ entry ∈ entries, entry.2.Shown :=
  fun entry member => Fits.mono (Nat.sub_le _ _) ((fits_object_iff.mp shown).2 entry member)

theorem Shown.get? (shown : (Value.object entries).Shown)
    (found : entries.get? key = some value) : value.Shown :=
  shown.mem_object (key, value) (Entries.mem_of_get? found)

theorem Shown.getD (shown : (Value.object entries).Shown) {missing : Value}
    (known : missing.Shown) : ((entries.get? key).getD missing).Shown := by
  cases found : entries.get? key with
  | none => exact known
  | some value => exact shown.get? found

end Value

/-! ## What is read can be shown -/

namespace Reader

theorem short_of_readNumber? {cs : List Char} {n : Int} {length : Nat}
    (read : readNumber? cs = some (.ok (.whole n), length)) : Number.Short n := by
  unfold readNumber? at read
  extract_lets negative body whole afterWhole fraction fractionLength power powerLength length
    exponent at read
  have digits : ∀ c ∈ whole, c.isDigit = true := by
    unfold whole
    split
    · simp
    · exact List.all_eq_true.mp List.all_takeWhile
  split at read
  · cases read
  · split at read
    · obtain ⟨result, -⟩ := Prod.mk.inj (Option.some.inj read)
      unfold wholeOf at result
      split at result
      · cases result
      · rename_i few
        cases result
        exact Number.short_of_digits digits (Nat.not_lt.mp few) _
    · cases read

theorem hereditary_fits : Hereditary Value.Fits where
  text _ _ := rfl
  scalar {room} _ _ _ read := by
    have named : ∀ entry ∈ names, entry.2.Fits room := by
      simp only [names, List.forall_mem_cons]
      exact ⟨rfl, rfl, rfl, rfl, rfl, rfl, by simp⟩
    rcases cases_of_readScalar read with ⟨entry, listed, rfl⟩ | ⟨n, _, counted, rfl⟩
    · exact named entry listed
    · cases n with
      | whole n => exact Value.fits_whole_iff.mpr (short_of_readNumber? counted)
      | real x => rfl
  list each := Value.fits_list_iff.mpr ⟨Nat.succ_ne_zero _, each⟩
  object all := Value.fits_object_iff.mpr ⟨Nat.succ_ne_zero _, all.each⟩

end Reader

/-- Whatever is read from a text can be shown. -/
theorem Value.shown_of_read {text : List Char} {value : Value}
    (read : Value.read text = .ok value) : value.Shown :=
  Reader.hereditary_fits.of_read read

end StackingPlanner
