import StackingPlanner.Description.Reading
import StackingPlanner.Proofs.Except

/-!
# The parts of a description

A description that was read has each of its parts from a part of the document,
and each of these is of the kind that it must be.
-/

namespace StackingPlanner

namespace Description

variable {part : String} {value data defaultName : Value} {entries : Entries} {d : Description}

theorem readObject_eq_ok_iff : readObject part value = .ok entries ↔ value = .object entries := by
  cases value <;> simp [readObject]

theorem readList_eq_ok_iff {items : List Value} :
    readList part value = .ok items ↔ value = .list items := by
  cases value <;> simp [readList]

theorem readSection_eq_ok_iff {name : String} :
    readSection entries name = .ok value ↔ entries.get? name = some value := by
  unfold readSection
  cases entries.get? name <;> simp

/-- A capacity is taken as it is given, be it none or a whole number. -/
theorem readCapacity_eq_ok {capacity : Value} (read : readCapacity part value = .ok capacity) :
    capacity = value ∧ (value = .null ∨ ∃ n, value = .whole n) := by
  unfold readCapacity at read
  split at read
  · cases read
    exact ⟨rfl, .inl rfl⟩
  · cases read
    exact ⟨rfl, .inr ⟨_, rfl⟩⟩
  · cases read

theorem readHorizon_eq_ok_iff {n : Int} : readHorizon value = .ok n ↔ 1 ≤ n ∧ value = .whole n := by
  unfold readHorizon
  constructor
  · intro read
    split at read
    · split at read
      · cases read
      · rename_i notBelow
        cases read
        exact ⟨Int.not_lt.mp notBelow, rfl⟩
    · cases read
  · rintro ⟨positive, rfl⟩
    exact if_neg (Int.not_lt.mpr positive)

/-- The settings that a category is read from. -/
structure CategoryFrom (settings : Entries) (name : String) (c : CategoryDeclaration) : Prop where
  name : c.name = name
  capacity : c.capacity = (settings.get? "max_occupants").getD (.whole 1)
  counted : c.capacity = .null ∨ ∃ n, c.capacity = .whole n
  movable : ∃ b, c.movable = .bool b

theorem exists_settings_of_readCategory {name : String} {c : CategoryDeclaration}
    (read : readCategory name value = .ok c) :
    ∃ settings, readSettings ("categories." ++ name) value = .ok settings ∧
      CategoryFrom settings name c := by
  obtain ⟨settings, given, read⟩ := Except.exists_of_bind_eq_ok read
  obtain ⟨capacity, counted, read⟩ := Except.exists_of_bind_eq_ok read
  obtain ⟨_, -, read⟩ := Except.exists_of_bind_eq_ok read
  obtain ⟨_, -, read⟩ := Except.exists_of_bind_eq_ok read
  obtain ⟨b, -, read⟩ := Except.exists_of_bind_eq_ok read
  cases read
  obtain ⟨rfl, kind⟩ := readCapacity_eq_ok counted
  exact ⟨settings, given, rfl, rfl, kind, b, rfl⟩

/-- The entries of a document that the parts of a description are read from. -/
structure ReadsFrom (entries : Entries) (d : Description) : Prop where
  categories : ∃ declared : Entries, entries.get? "categories" = some (.object declared) ∧
    declared.mapM (fun e => readCategory e.1 e.2) = .ok d.categories
  objects : ∃ members : Entries, entries.get? "objects" = some (.object members) ∧
    members.mapM (fun e => readMember e.1 e.2) = .ok d.objects
  horizon : ∃ n, 1 ≤ n ∧ entries.get? "horizon" = some (.whole n) ∧ d.horizon = .whole n
  initial : ∃ value, readLiterals "initial" value = .ok d.initial
  goal : ∃ value, readLiterals "goal" value = .ok d.goal
  name : ∃ name, d.name = .text name

theorem readsFrom_of_ofValue (accepted : ofValue data defaultName = .ok d) :
    ∃ entries, data = .object entries ∧ ReadsFrom entries d := by
  obtain ⟨entries, opened, read⟩ := Except.exists_of_bind_eq_ok accepted
  obtain ⟨_, foundCategories, read⟩ := Except.exists_of_bind_eq_ok read
  obtain ⟨_, foundObjects, read⟩ := Except.exists_of_bind_eq_ok read
  iterate 2 obtain ⟨_, -, read⟩ := Except.exists_of_bind_eq_ok read
  obtain ⟨_, foundHorizon, read⟩ := Except.exists_of_bind_eq_ok read
  obtain ⟨declared, openedCategories, read⟩ := Except.exists_of_bind_eq_ok read
  obtain ⟨categories, readCategories, read⟩ := Except.exists_of_bind_eq_ok read
  obtain ⟨members, openedObjects, read⟩ := Except.exists_of_bind_eq_ok read
  obtain ⟨objects, readObjects, read⟩ := Except.exists_of_bind_eq_ok read
  obtain ⟨horizon, readSteps, read⟩ := Except.exists_of_bind_eq_ok read
  obtain ⟨initial, readInitial, read⟩ := Except.exists_of_bind_eq_ok read
  obtain ⟨goal, readGoal, read⟩ := Except.exists_of_bind_eq_ok read
  obtain ⟨name, -, read⟩ := Except.exists_of_bind_eq_ok read
  obtain ⟨_, -, read⟩ := Except.exists_of_bind_eq_ok read
  cases read
  rw [readSection_eq_ok_iff] at foundCategories foundObjects foundHorizon
  rw [readObject_eq_ok_iff] at opened openedCategories openedObjects
  obtain ⟨positive, rfl⟩ := readHorizon_eq_ok_iff.mp readSteps
  subst openedCategories openedObjects
  exact ⟨entries, opened,
    { categories := ⟨declared, foundCategories, readCategories⟩
      objects := ⟨members, foundObjects, readObjects⟩
      horizon := ⟨horizon, positive, foundHorizon, rfl⟩
      initial := ⟨_, readInitial⟩
      goal := ⟨_, readGoal⟩
      name := ⟨name, rfl⟩ }⟩

end Description

end StackingPlanner
