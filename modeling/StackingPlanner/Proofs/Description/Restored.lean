import StackingPlanner.Proofs.Description.File
import StackingPlanner.Proofs.Description.Storable
import StackingPlanner.Proofs.Document.Written
import StackingPlanner.Proofs.Schema.Accepted

/-!
# Descriptions are restored from documents

The document of a description tells all of it but its metadata.  When it is read
again everything is found as it was, provided that the parts of the description
are of the kinds that a document tells apart and that its literals are spelled
by their texts.  Both hold of every description that was itself read.
-/

namespace StackingPlanner

theorem OrderedSet.ofList_toList {α : Type} [LT α] [DecidableLT α] [StrictOrder α]
    (s : OrderedSet α) : ofList s.toList = s :=
  eq_of_mem_iff fun _ => mem_ofList

namespace Description

/-- All that the document of a description tells. -/
def withoutMetadata (d : Description) : Description := { d with metadata := [] }

variable {d e : Description} {c : CategoryDeclaration} {part : String} {value data other : Value}

/-! ## Reading what was written -/

theorem mapM_readText (part : String) (texts : List String) :
    (texts.map Value.text).mapM (readText part) = .ok texts :=
  Except.mapM_map_eq_ok fun _ _ => rfl

theorem readCategory_categoryValue (wellFormed : c.WellFormed) :
    readCategory c.name (categoryValue c) = .ok c := by
  obtain ⟨name, capacity, allowed, movable⟩ := c
  obtain ⟨count, b, rfl⟩ := wellFormed
  have read : ∀ part, readCapacity part capacity = .ok capacity := by
    intro part
    rcases count with rfl | ⟨n, rfl⟩ <;> rfl
  let settings : Entries := [("max_occupants", capacity),
    ("allowed_occupants", Value.texts allowed.toList), ("movable", .bool b)]
  have opened : ∀ part, readSettings part (.object settings) = .ok settings := fun _ => rfl
  have first : (settings.get? "max_occupants").getD (.whole 1) = capacity := rfl
  have second : (settings.get? "allowed_occupants").getD (.list []) =
      .list (allowed.toList.map .text) := rfl
  have third : (settings.get? "movable").getD (.bool true) = .bool b := rfl
  change readCategory name (.object settings) = _
  simp only [readCategory, opened, first, second, third, read, readList, readBool, mapM_readText,
    OrderedSet.ofList_toList, bind, Except.bind]
  rfl

theorem readLiterals_texts (part : String) {literals : List Literal}
    (spellable : ∀ l ∈ literals, l.Spellable) :
    readLiterals part (Value.texts (literals.map Literal.text)) = .ok literals := by
  have items : Value.texts (literals.map Literal.text) =
      .list (literals.map (fun l => .text l.text)) := by
    rw [Value.texts, List.map_map]
    rfl
  rw [readLiterals, items]
  exact Except.mapM_map_eq_ok fun l member => Literal.ofValue_text_iff.mpr (spellable l member)

/-- From its document a description is read as it was but for its metadata. -/
theorem Readable.restored (readable : d.Readable) (once : d.NamesOnce) (other : Value) :
    ofValue d.toValue other = .ok d.withoutMetadata := by
  obtain ⟨categories, objects, initial, goal, horizon, name, metadata⟩ := d
  obtain ⟨⟨label, rfl⟩, ⟨n, positive, rfl⟩, wellFormed, spellable⟩ := readable
  obtain ⟨categoriesOnce, objectsOnce⟩ := once
  obtain ⟨first, second⟩ := List.forall_mem_append.mp spellable
  have readCategories : (categories.map (fun c => (c.name, categoryValue c))).mapM
      (fun e => readCategory e.1 e.2) = .ok categories :=
    Except.mapM_map_eq_ok fun c member => readCategory_categoryValue (wellFormed c member)
  have readObjects : (objects.map (fun o => (o.name, Value.text o.category))).mapM
      (fun e => readMember e.1 e.2) = .ok objects := Except.mapM_map_eq_ok fun _ _ => rfl
  have readSteps : readHorizon (.whole n) = .ok n := readHorizon_eq_ok_iff.mpr ⟨positive, rfl⟩
  let entries : Entries := [("name", .text label),
    ("categories", .object (categories.map (fun c => (c.name, categoryValue c)))),
    ("objects", .object (objects.map (fun o => (o.name, .text o.category)))),
    ("initial", Value.texts (initial.map Literal.text)),
    ("goal", Value.texts (goal.map Literal.text)), ("horizon", .whole n)]
  have written : toValue ⟨categories, objects, initial, goal, .whole n, .text label, metadata⟩ =
      .object entries := by
    rw [toValue, byName_of_nodup categoriesOnce, byName_of_nodup objectsOnce]
  have categoriesPart : readSection entries "categories" = .ok _ := rfl
  have objectsPart : readSection entries "objects" = .ok _ := rfl
  have initialPart : readSection entries "initial" = .ok _ := rfl
  have goalPart : readSection entries "goal" = .ok _ := rfl
  have horizonPart : readSection entries "horizon" = .ok _ := rfl
  have named : (entries.get? "name").getD other = .text label := rfl
  have unknown : (entries.get? "metadata").getD (.object []) = .object [] := rfl
  rw [written]
  simp only [ofValue, readObject, categoriesPart, objectsPart, initialPart, goalPart, horizonPart,
    named, unknown, readText, readCategories, readObjects, readSteps, readLiterals_texts _ first,
    readLiterals_texts _ second, bind, Except.bind]
  rfl

/-! ## What was read can be read again -/

theorem readCategory_wellFormed {name : String} (read : readCategory name value = .ok c) :
    c.name = name ∧ c.WellFormed := by
  obtain ⟨_, -, reads⟩ := exists_settings_of_readCategory read
  exact ⟨reads.name, reads.counted, reads.movable⟩

theorem readMember_name {name : String} {o : DomainObject}
    (read : readMember name value = .ok o) : o.name = name := by
  obtain ⟨_, -, read⟩ := Except.exists_of_bind_eq_ok read
  cases read
  rfl

theorem readLiterals_spellable {literals : List Literal}
    (read : readLiterals part value = .ok literals) : ∀ l ∈ literals, l.Spellable := by
  obtain ⟨items, -, read⟩ := Except.exists_of_bind_eq_ok read
  intro l member
  obtain ⟨item, -, spelled⟩ := Except.exists_of_mapM_eq_ok read member
  obtain ⟨s, -, spelled⟩ := Except.exists_of_bind_eq_ok spelled
  exact (Literal.parse_eq_ok_iff.mp (Literal.ofValue_eq_ok_iff.mp spelled)).spellable

theorem readable_of_ofValue (accepted : ofValue data other = .ok d) : d.Readable := by
  obtain ⟨entries, -, reads⟩ := readsFrom_of_ofValue accepted
  obtain ⟨declared, -, readCategories⟩ := reads.categories
  obtain ⟨n, positive, -, steps⟩ := reads.horizon
  obtain ⟨_, readInitial⟩ := reads.initial
  obtain ⟨_, readGoal⟩ := reads.goal
  refine ⟨reads.name, ⟨n, positive, steps⟩, fun c member => ?_, ?_⟩
  · obtain ⟨_, -, read⟩ := Except.exists_of_mapM_eq_ok readCategories member
    exact (readCategory_wellFormed read).2
  · exact List.forall_mem_append.mpr
      ⟨readLiterals_spellable readInitial, readLiterals_spellable readGoal⟩

/-- If a document has no key twice, then what is read from it declares nothing twice. -/
theorem namesOnce_of_ofValue (keyed : data.Keyed) (accepted : ofValue data other = .ok d) :
    d.NamesOnce := by
  obtain ⟨entries, rfl, reads⟩ := readsFrom_of_ofValue accepted
  obtain ⟨declared, foundCategories, readCategories⟩ := reads.categories
  obtain ⟨members, foundObjects, readObjects⟩ := reads.objects
  have sameCategories : d.categories.map (·.name) = declared.keys :=
    Except.map_of_mapM_eq_ok readCategories fun _ _ read => (readCategory_wellFormed read).1
  have sameObjects : d.objects.map (·.name) = members.keys :=
    Except.map_of_mapM_eq_ok readObjects fun _ _ read => readMember_name read
  have once := (keyed.entries.get? foundCategories).entries.once
  have alsoOnce := (keyed.entries.get? foundObjects).entries.once
  exact ⟨sameCategories ▸ once, sameObjects ▸ alsoOnce⟩

/-! ## Restoring descriptions -/

theorem restored_of_ofValue (keyed : data.Keyed) (accepted : ofValue data other = .ok d)
    (defaultName : Value) : ofValue d.toValue defaultName = .ok d.withoutMetadata :=
  (readable_of_ofValue accepted).restored (namesOnce_of_ofValue keyed accepted) defaultName

/-- A description is restored exactly if it can be read from a document. -/
theorem restored_iff_readable (once : d.NamesOnce) (defaultName : Value) :
    ofValue d.toValue defaultName = .ok d.withoutMetadata ↔ d.Readable := by
  constructor
  · intro restored
    obtain ⟨name, horizon, categories, literals⟩ := readable_of_ofValue restored
    exact ⟨name, horizon, categories, literals⟩
  · exact fun readable => readable.restored once defaultName

theorem ofFile_fileText {path : Path} (passes : path.check = .ok ())
    (inverse : Value.read d.fileText.toList = .ok d.toValue) :
    ofFile path (.ok (Text.utf8Bytes d.fileText.toList)) =
      Fault.lift (ofValue d.toValue (.text path.stem)) := by
  have found : fileDocument path (.ok (Text.utf8Bytes d.fileText.toList)) = .ok d.toValue := by
    have lines : Text.normalLines d.fileText.toList = d.fileText.toList :=
      Text.normalLines_of_not_mem (Value.noReturn_write d.toValue)
    rw [fileDocument_utf8Bytes passes, lines, textDocument, inverse]
  rw [ofFile, found]
  rfl

/-- A description is restored from its file if nothing in its document gets lost there. -/
theorem Storable.restored_from_file (storable : d.Storable) (readable : d.Readable)
    (once : d.NamesOnce) {path : Path} (passes : path.check = .ok ()) :
    ofFile path (.ok (Text.utf8Bytes d.fileText.toList)) = .ok d.withoutMetadata := by
  rw [ofFile_fileText passes (storable.read_fileText readable once), readable.restored once]
  rfl

theorem restored_of_ofFile {path : Path} {content : FileContent}
    (loaded : ofFile path content = .ok d) (defaultName : Value) :
    ofValue d.toValue defaultName = .ok d.withoutMetadata := by
  obtain ⟨text, entries, read, accepted⟩ := exists_read_of_ofFile loaded
  exact restored_of_ofValue (Value.keyed_of_read read) accepted defaultName

/--
A description that was read from a document is restored from the document that
it is written to, under every default name: all of it is found again but its
metadata, of which none is left, and the document of what is found is the same.
As far as reading undoes writing for that document, so it is with files.
-/
theorem restored_without_metadata (keyed : data.Keyed)
    (accepted : ofValue data other = .ok d) :
    (∀ defaultName, ofValue d.toValue defaultName = .ok { d with metadata := [] }) ∧
      toValue { d with metadata := [] } = d.toValue ∧
      ∀ path : Path, path.check = .ok () → Value.read d.fileText.toList = .ok d.toValue →
        ofFile path (.ok (Text.utf8Bytes d.fileText.toList)) = .ok { d with metadata := [] } := by
  have restored := restored_of_ofValue keyed accepted
  refine ⟨restored, rfl, fun path passes inverse => ?_⟩
  rw [ofFile_fileText passes inverse, restored]
  rfl

/--
A document that leaves settings out, has a literal twice and spells another in a
way of its own.
-/
def looseDocument : Value :=
  .object
    [("metadata", .object [("origin", .text "hand")]),
      ("categories", .object
        [("disc", .null),
          ("table", .object
            [("movable", .bool false), ("max_occupants", .null),
              ("allowed_occupants", .list [.text "disc", .text "disc"])])]),
      ("objects", .object [("a", .text "disc"), ("t", .text "table")]),
      ("initial", .list [.text "on(a,t)", .text " on( a , t ) ", .text "not holding ( a )"]),
      ("goal", .list [.text "~handempty()"]), ("horizon", .whole 2)]

def looseDescription : Description where
  categories :=
    [⟨"disc", .whole 1, .ofList [], .bool true⟩,
      ⟨"table", .null, .ofList ["disc"], .bool false⟩]
  objects := [⟨"a", "disc"⟩, ⟨"t", "table"⟩]
  initial := [.holds (.on "a" "t"), .holds (.on "a" "t"), .fails (.holding "a")]
  goal := [.fails .handEmpty]
  horizon := .whole 2
  name := .text "loose"
  metadata := [("origin", .text "hand")]

theorem keyed_looseDocument : looseDocument.Keyed := by
  refine .object (by decide) ?_
  simp only [List.forall_mem_cons]
  refine ⟨.object (by decide) ?_, .object (by decide) ?_, .object (by decide) ?_,
    .list ?_, .list ?_, .number _, by simp⟩
  · simpa using .text _
  · simp only [List.forall_mem_cons]
    refine ⟨.null, .object (by decide) ?_, by simp⟩
    simp only [List.forall_mem_cons]
    refine ⟨.bool _, .null, .list ?_, by simp⟩
    simpa using .text _
  · simp only [List.forall_mem_cons]
    exact ⟨.text _, .text _, by simp⟩
  · simp only [List.forall_mem_cons]
    exact ⟨.text _, .text _, .text _, by simp⟩
  · simpa using .text _

theorem storable_looseDescription : looseDescription.Storable where
  name := by
    rintro s ⟨⟩
    decide
  horizon := by
    rintro n ⟨⟩
    decide
  categories := by decide
  capacities := by
    simp only [looseDescription, List.forall_mem_cons]
    refine ⟨?_, ?_, by simp⟩
    · rintro n ⟨⟩
      decide
    · rintro n ⟨⟩
  allowed := by decide
  objects := by decide

theorem restored_without_metadata_loose :
    looseDocument.Keyed ∧ ofValue looseDocument (.text "loose") = .ok looseDescription ∧
      (∀ defaultName, ofValue looseDescription.toValue defaultName =
        .ok { looseDescription with metadata := [] }) ∧
      (Path.ofText "d.json").check = .ok () ∧
      Value.read looseDescription.fileText.toList = .ok looseDescription.toValue ∧
      ofFile (Path.ofText "d.json") (.ok (Text.utf8Bytes looseDescription.fileText.toList)) =
        .ok { looseDescription with metadata := [] } := by
  have accepted : ofValue looseDocument (.text "loose") = .ok looseDescription := by rfl
  have passes : (Path.ofText "d.json").check = .ok () := by rfl
  have inverse := storable_looseDescription.read_fileText (readable_of_ofValue accepted)
    (namesOnce_of_ofValue keyed_looseDocument accepted)
  have restored := restored_without_metadata keyed_looseDocument accepted
  exact ⟨keyed_looseDocument, accepted, restored.1, passes, inverse,
    restored.2.2 _ passes inverse⟩

end Description

end StackingPlanner
