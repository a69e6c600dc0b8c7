import StackingPlanner.Description.File
import StackingPlanner.Proofs.Document.Reread
import StackingPlanner.Proofs.Document.Written
import StackingPlanner.Proofs.Fluent.Spelling

/-!
# Descriptions in the texts of files

A description that can be read from a document can also be read from the text of
that document, if no lone surrogates in its names would be taken for a pair there
and its numbers are not too long.
-/

namespace StackingPlanner

theorem Literal.Spellable.ascii {l : Literal} (spellable : l.Spellable) :
    ∀ c ∈ l.text.toList, c.toNat < 0x80 := by
  have names : ∀ {name : List Char}, isName name = true → ∀ c ∈ name, c.toNat < 0x80 := by
    intro name named c member
    have codes := toNat_of_continuesName (continuesName_of_mem named member)
    omega
  have fluent : ∀ c ∈ l.fluent.text.toList, c.toNat < 0x80 := by
    unfold Fluent.text Fluent.applied
    split
    · exact names spellable.name
    · have each : ∀ part ∈ l.fluent.args.map String.toList, ∀ c ∈ part, c.toNat < 0x80 := by
        intro part member
        obtain ⟨arg, listed, rfl⟩ := List.mem_map.mp member
        exact names (spellable.args arg listed)
      simp only [String.toList_append, String.toList_intercalate, List.forall_mem_append]
      exact ⟨⟨⟨names spellable.name, by simp⟩,
        List.forall_mem_intercalate (by simp) each⟩, by simp⟩
  unfold Literal.text
  split
  · exact fluent
  · rw [String.toList_append, List.forall_mem_append]
    exact ⟨by simp, fluent⟩

/-- A category whose capacity and mobility are of the kinds that they should have. -/
structure CategoryDeclaration.WellFormed (c : CategoryDeclaration) : Prop where
  capacity : c.capacity = .null ∨ ∃ n, c.capacity = .whole n
  movable : ∃ b, c.movable = .bool b

namespace Description

/-- A description whose parts are such that they can be read from a document. -/
structure Readable (d : Description) : Prop where
  name : ∃ s, d.name = .text s
  horizon : ∃ n : Int, 1 ≤ n ∧ d.horizon = .whole n
  categories : ∀ c ∈ d.categories, c.WellFormed
  literals : ∀ l ∈ d.initial ++ d.goal, l.Spellable

/-- A description that declares nothing under a name twice. -/
structure NamesOnce (d : Description) : Prop where
  categories : (d.categories.map (·.name)).Nodup
  objects : (d.objects.map (·.name)).Nodup

/-- A description of whose names and numbers nothing gets lost in a text. -/
structure Storable (d : Description) : Prop where
  name : ∀ s, d.name = .text s → Text.Unpaired s.toList
  horizon : ∀ n, d.horizon = .whole n → Number.Short n
  categories : ∀ c ∈ d.categories, Text.Unpaired c.name.toList
  capacities : ∀ c ∈ d.categories, ∀ n, c.capacity = .whole n → Number.Short n
  allowed : ∀ c ∈ d.categories, ∀ a ∈ c.allowed.toList, Text.Unpaired a.toList
  objects : ∀ o ∈ d.objects, Text.Unpaired o.name.toList ∧ Text.Unpaired o.category.toList

variable {d : Description} {room : Nat}

theorem byName_of_nodup {α : Type} {name : α → String} {write : α → Value} {declared : List α}
    (once : (declared.map name).Nodup) :
    byName name write declared = .object (declared.map (fun a => (name a, write a))) := by
  rw [byName, Entries.setAll_of_nodup, List.nil_append]
  simpa [Entries.keys, Function.comp_def] using once

theorem lossless_texts {texts : List String} (each : ∀ s ∈ texts, Text.Unpaired s.toList) :
    (Value.texts texts).Lossless (room + 1) := by
  refine .list fun item member => ?_
  obtain ⟨s, listed, rfl⟩ := List.mem_map.mp member
  exact .text (each s listed)

theorem lossless_byName {α : Type} {name : α → String} {write : α → Value} {declared : List α}
    (once : (declared.map name).Nodup) (named : ∀ a ∈ declared, Text.Unpaired (name a).toList)
    (each : ∀ a ∈ declared, (write a).Lossless room) :
    (byName name write declared).Lossless (room + 1) := by
  rw [byName_of_nodup once]
  refine .object ?_ ?_ ?_
  · simpa [Entries.keys, Function.comp_def] using once
  · simpa [Entries.keys] using named
  · simpa using each

theorem lossless_literals {literals : List Literal} (spellable : ∀ l ∈ literals, l.Spellable) :
    (Value.texts (literals.map Literal.text)).Lossless (room + 1) := by
  refine lossless_texts fun s member => ?_
  obtain ⟨l, listed, rfl⟩ := List.mem_map.mp member
  exact Text.unpaired_of_ascii (spellable l listed).ascii

theorem Storable.lossless_categoryValue (storable : d.Storable) {c : CategoryDeclaration}
    (member : c ∈ d.categories) (wellFormed : c.WellFormed) :
    (categoryValue c).Lossless (room + 2) := by
  have capacity : c.capacity.Lossless (room + 1) := by
    rcases wellFormed.capacity with absent | ⟨n, count⟩
    · exact absent ▸ .null
    · exact count ▸ .whole (storable.capacities c member n count)
  have movable : c.movable.Lossless (room + 1) := by
    obtain ⟨b, value⟩ := wellFormed.movable
    exact value ▸ .bool b
  have keys : ["max_occupants", "allowed_occupants", "movable"].Nodup ∧
      ∀ key ∈ ["max_occupants", "allowed_occupants", "movable"], Text.Unpaired key.toList := by
    decide
  refine .object keys.1 keys.2 ?_
  simp only [List.forall_mem_cons]
  exact ⟨capacity, lossless_texts (storable.allowed c member), movable, by simp⟩

theorem Storable.lossless_toValue (storable : d.Storable) (readable : d.Readable)
    (once : d.NamesOnce) : d.toValue.Lossless (room + 4) := by
  have name : d.name.Lossless (room + 3) := by
    obtain ⟨s, label⟩ := readable.name
    exact label ▸ .text (storable.name s label)
  have horizon : d.horizon.Lossless (room + 3) := by
    obtain ⟨n, -, steps⟩ := readable.horizon
    exact steps ▸ .whole (storable.horizon n steps)
  have categories :
      (byName CategoryDeclaration.name categoryValue d.categories).Lossless (room + 3) :=
    lossless_byName once.categories storable.categories fun c member =>
      storable.lossless_categoryValue member (readable.categories c member)
  have objects :
      (byName DomainObject.name (fun o => .text o.category) d.objects).Lossless (room + 3) :=
    lossless_byName once.objects (fun o member => (storable.objects o member).1)
      fun o member => .text (storable.objects o member).2
  obtain ⟨initial, goal⟩ := List.forall_mem_append.mp readable.literals
  have keys : ["name", "categories", "objects", "initial", "goal", "horizon"].Nodup ∧
      ∀ key ∈ ["name", "categories", "objects", "initial", "goal", "horizon"],
        Text.Unpaired key.toList := by decide
  refine .object keys.1 keys.2 ?_
  simp only [List.forall_mem_cons]
  exact ⟨name, categories, objects, lossless_literals initial, lossless_literals goal, horizon,
    by simp⟩

/-- The text of the file of a description holds its document. -/
theorem Storable.read_fileText (storable : d.Storable) (readable : d.Readable)
    (once : d.NamesOnce) : Value.read d.fileText.toList = .ok d.toValue :=
  (storable.lossless_toValue readable once).read_write

end Description

end StackingPlanner
