import StackingPlanner.Proofs.Document.Keys
import StackingPlanner.Proofs.Document.Numerals
import StackingPlanner.Proofs.Document.Texts
import StackingPlanner.Proofs.Text.Parts

/-!
# Written documents are read again

A document is read again from its text if nothing in it gets lost there: its
texts have no lone surrogates that would be taken for a pair, its numbers are
whole and not too long, its objects have their keys once, and it is not nested
too deeply.
-/

namespace StackingPlanner

namespace Reader

variable {c : Cursor} {gap tail rest : List Char} {room : Nat}

/-! ## Spaces -/

/-- The spaces of a text are skipped up to the first other character. -/
theorem skipSpace_rest (shape : c.rest = gap ++ tail) (spaces : ∀ d ∈ gap, isSpace d = true)
    (stops : Text.StopsAt isSpace tail) : c.skipSpace.rest = tail := by
  have skipped : c.rest.takeWhile isSpace = gap := by
    rw [shape, List.takeWhile_append_of_pos spaces, Text.takeWhile_of_stopsAt stops,
      List.append_nil]
  change c.rest.drop (c.rest.takeWhile isSpace).length = tail
  rw [skipped, shape, List.drop_left]

theorem skipSpace_rest_of_solid {first : Char} (shape : c.rest = first :: tail)
    (solid : isSpace first = false) : c.skipSpace.rest = first :: tail := by
  refine skipSpace_rest (shape.trans (List.nil_append _).symm) (by simp) ?_
  rintro d ⟨⟩
  exact solid

/-! ## Names and numbers -/

/-- Nothing that is written by name begins like a number. -/
theorem readName?_digits (negative : Bool) (n : Nat) (rest : List Char) :
    readName? (signText negative ++ (Nat.toDigits 10 n ++ rest)) = none := by
  obtain ⟨first, others, shape⟩ := List.exists_cons_of_ne_nil (Number.toDigits_ne_nil n)
  have digit := Number.isDigit_of_mem_toDigits n first (shape ▸ List.mem_cons_self)
  have starts : ∀ entry ∈ names, ∃ x y ys, entry.1.toList = x :: y :: ys ∧
      x.isDigit = false ∧ y.isDigit = false := by
    simp only [names, List.forall_mem_cons]
    refine ⟨⟨_, _, _, rfl, rfl, rfl⟩, ⟨_, _, _, rfl, rfl, rfl⟩, ⟨_, _, _, rfl, rfl, rfl⟩,
      ⟨_, _, _, rfl, rfl, rfl⟩, ⟨_, _, _, rfl, rfl, rfl⟩, ⟨_, _, _, rfl, rfl, rfl⟩, by simp⟩
  have other : ∀ x : Char, x.isDigit = false → (x == first) = false := by
    intro x noDigit
    refine beq_eq_false_iff_ne.mpr fun same => ?_
    rw [same, digit] at noDigit
    cases noDigit
  unfold readName?
  rw [Option.map_eq_none_iff, List.find?_eq_none]
  intro entry member
  obtain ⟨x, y, ys, name, notFirst, notSecond⟩ := starts entry member
  rw [name, shape]
  cases negative with
  | false => simp [signText, List.isPrefixOf, other x notFirst]
  | true => simp [signText, List.isPrefixOf, other y notSecond]

theorem reads_readScalar {value : Value} {text : List Char} (shape : c.rest = text ++ rest)
    (filled : text ≠ [])
    (found : readName? c.rest = some (value, text.length) ∨
      readName? c.rest = none ∧ ∃ n, value = .number n ∧
        readNumber? c.rest = some (.ok n, text.length)) :
    Reads (readScalar c) value rest := by
  have long : 0 < text.length ∧ 0 < c.rest.length := by
    have positive := List.length_pos_iff.mpr filled
    rw [shape, List.length_append]
    omega
  have left : c.rest.drop text.length = rest := by rw [shape, List.drop_left]
  unfold readScalar
  rcases found with named | ⟨unnamed, n, rfl, number⟩
  · simp only [named]
    rw [dif_pos long]
    exact ⟨_, rfl, left⟩
  · simp only [unnamed, number, Option.map_some, Except.map]
    rw [dif_pos long]
    exact ⟨_, rfl, left⟩

/-! ## Lists and objects -/

def gapText (level : Nat) : List Char := '\n' :: List.replicate (2 * level) ' '

theorem isSpace_of_mem_gapText {level : Nat} : ∀ d ∈ gapText level, isSpace d = true := by
  intro d member
  rcases List.mem_cons.mp member with rfl | indent
  · rfl
  · rw [List.eq_of_mem_replicate indent]
    rfl

theorem ended_gapText (level : Nat) (tail : List Char) : Ended (gapText level ++ tail) := by
  rintro d ⟨⟩
  exact .inr rfl

theorem ended_comma (tail : List Char) : Ended (',' :: tail) := by
  rintro d ⟨⟩
  exact .inl rfl

/-- A character with which a value may begin: no space, nor one that means something else. -/
def opensValue (c : Char) : Bool := !isSpace c && c ≠ ']' && c ≠ Char.ofNat 0xFEFF

/-- A value whose text at a level is read again, in some room, from wherever it stands. -/
structure Rereads (room level : Nat) (value : Value) : Prop where
  opens : ∃ first text, (value.writeAt false level).toList = first :: text ∧
    opensValue first = true
  reads : ∀ {c : Cursor} {rest : List Char}, Ended rest →
    c.rest = (value.writeAt false level).toList ++ rest → Reads (readValue room c) value rest

theorem Rereads.opensValue {level : Nat} {value : Value} (rereads : Rereads room level value)
    (rest : List Char) :
    ∀ d ∈ ((value.writeAt false level).toList ++ rest).head?, opensValue d = true := by
  obtain ⟨first, text, shape, opens⟩ := rereads.opens
  rw [shape]
  rintro d ⟨⟩
  exact opens

theorem isSpace_of_opensValue {d : Char} (opens : opensValue d = true) : isSpace d = false := by
  simp only [opensValue, Bool.and_eq_true, Bool.not_eq_true'] at opens
  exact opens.1.1

theorem ne_bracket_of_opensValue {d : Char} (opens : opensValue d = true) : d ≠ ']' := by
  rintro rfl
  cases opens

section Containers

variable {level outer : Nat}

theorem opensValue_items {items : List Value} (filled : items ≠ [])
    (each : ∀ item ∈ items, Rereads room level item) (tail : List Char) :
    ∀ d ∈ ((',' :: gapText level).intercalate
      (items.map (fun item => (item.writeAt false level).toList)) ++ tail).head?,
      opensValue d = true := by
  refine List.forall_head?_intercalate (by simpa using filled) ?_ _ tail
  intro part member
  obtain ⟨item, listed, rfl⟩ := List.mem_map.mp member
  exact (each item listed).opensValue

theorem reads_readItems {items : List Value} (filled : items ≠ [])
    (each : ∀ item ∈ items, Rereads room level item)
    (shape : c.rest = (',' :: gapText level).intercalate
        (items.map (fun item => (item.writeAt false level).toList)) ++
      (gapText outer ++ ']' :: rest)) :
    Reads (readItems room c) items rest := by
  induction items generalizing c with
  | nil => exact absurd rfl filled
  | cons item others ih =>
      obtain ⟨here, later⟩ := List.forall_mem_cons.mp each
      cases others with
      | nil =>
          rw [List.map_singleton, List.intercalate_singleton] at shape
          obtain ⟨after, read, left⟩ := here.reads (ended_gapText outer _) shape
          have closing : after.1.skipSpace.rest = ']' :: rest :=
            skipSpace_rest left isSpace_of_mem_gapText (by rintro d ⟨⟩; rfl)
          rw [readItems, read]
          dsimp only
          split
          · rename_i tail stands
            cases closing.symm.trans stands
            exact ⟨_, rfl, by simp [Cursor.advance, closing]⟩
          · rename_i tail stands
            cases closing.symm.trans stands
          · rename_i other _
            exact absurd closing (other _)
      | cons next more =>
          have split : c.rest = (item.writeAt false level).toList ++ (',' :: (gapText level ++
              ((',' :: gapText level).intercalate ((next :: more).map
                (fun v => (v.writeAt false level).toList)) ++
                (gapText outer ++ ']' :: rest)))) := by
            rw [shape]
            simp [List.intercalate_cons_cons]
          obtain ⟨after, read, left⟩ := here.reads (ended_comma _) split
          have comma := skipSpace_rest_of_solid left rfl
          have start : (after.1.skipSpace.advance 1).skipSpace.rest = _ :=
            skipSpace_rest (by rw [Cursor.advance, comma]; rfl) isSpace_of_mem_gapText
              fun d first => isSpace_of_opensValue (opensValue_items (by simp) later _ d first)
          obtain ⟨last, inner, leftLast⟩ := ih (by simp) later start
          rw [readItems, read]
          dsimp only
          split
          · rename_i tail stands
            cases comma.symm.trans stands
          · rw [inner]
            exact ⟨_, rfl, leftLast⟩
          · rename_i other
            exact absurd comma (other _)

def entryText (level : Nat) (entry : String × Value) : List Char :=
  (Value.writtenText false entry.1).toList ++
    ':' :: ' ' :: (entry.2.writeAt false level).toList

theorem quote_entries (level : Nat) {entries : Entries} (filled : entries ≠ []) (tail : List Char) :
    ∀ d ∈ ((',' :: gapText level).intercalate (entries.map (entryText level)) ++ tail).head?,
      d = '"' := by
  refine List.forall_head?_intercalate (by simpa using filled) ?_ _ tail
  intro part member tail d first
  obtain ⟨entry, -, rfl⟩ := List.mem_map.mp member
  rw [Option.mem_def] at first
  simpa [entryText, Value.writtenText, eq_comm] using first

theorem exists_readEntry {entry : String × Value} (unpaired : Text.Unpaired entry.1.toList)
    (here : Rereads room level entry.2) (ended : Ended tail)
    (shape : c.rest = entryText level entry ++ tail) :
    ∃ afterKey others, readText c = .ok (entry.1, afterKey) ∧
      afterKey.1.skipSpace.rest = ':' :: others ∧
      Reads (readValue room (afterKey.1.skipSpace.advance 1).skipSpace) entry.2 tail := by
  have split : c.rest = (Value.writtenText false entry.1).toList ++
      (':' :: ([' '] ++ ((entry.2.writeAt false level).toList ++ tail))) := by
    rw [shape, entryText]
    simp
  obtain ⟨afterKey, read, left⟩ := reads_writtenText unpaired split
  have colon := skipSpace_rest_of_solid left rfl
  have start : (afterKey.1.skipSpace.advance 1).skipSpace.rest = _ :=
    skipSpace_rest (by rw [Cursor.advance, colon]; rfl) (by simp [isSpace])
      fun d first => isSpace_of_opensValue (here.opensValue tail d first)
  exact ⟨afterKey, _, read, colon, here.reads ended start⟩

theorem reads_readEntries {entries : Entries} (filled : entries ≠ [])
    (named : ∀ entry ∈ entries, Text.Unpaired entry.1.toList)
    (each : ∀ entry ∈ entries, Rereads room level entry.2) (before : Entries)
    (shape : c.rest = (',' :: gapText level).intercalate (entries.map (entryText level)) ++
      (gapText outer ++ '\x7d' :: rest)) :
    Reads (readEntries room before c) (Entries.setAll before entries) rest := by
  -- Each entry is set before the later ones are read, so those before have to be arbitrary.
  induction entries generalizing c before with
  | nil => exact absurd rfl filled
  | cons entry others ih =>
      obtain ⟨here, later⟩ := List.forall_mem_cons.mp each
      obtain ⟨unpaired, otherKeys⟩ := List.forall_mem_cons.mp named
      cases others with
      | nil =>
          rw [List.map_singleton, List.intercalate_singleton] at shape
          obtain ⟨afterKey, _, key, colon, after, read, left⟩ :=
            exists_readEntry unpaired here (ended_gapText outer _) shape
          have closing : after.1.skipSpace.rest = '\x7d' :: rest :=
            skipSpace_rest left isSpace_of_mem_gapText (by rintro d ⟨⟩; rfl)
          rw [readEntries, key]
          dsimp only
          split
          · rw [read]
            dsimp only
            split
            · rename_i stands
              cases closing.symm.trans stands
              exact ⟨_, rfl, by simp [Cursor.advance, closing]⟩
            · rename_i stands
              cases closing.symm.trans stands
            · rename_i other _
              exact absurd closing (other _)
          · rename_i other
            exact absurd colon (other _)
      | cons next more =>
          have split : c.rest = entryText level entry ++ (',' :: (gapText level ++
              ((',' :: gapText level).intercalate ((next :: more).map (entryText level)) ++
                (gapText outer ++ '\x7d' :: rest)))) := by
            rw [shape]
            simp [List.intercalate_cons_cons]
          obtain ⟨afterKey, _, key, colon, after, read, left⟩ :=
            exists_readEntry unpaired here (ended_comma _) split
          have comma := skipSpace_rest_of_solid left rfl
          have start : (after.1.skipSpace.advance 1).skipSpace.rest = _ :=
            skipSpace_rest (by rw [Cursor.advance, comma]; rfl) isSpace_of_mem_gapText
              fun d first => by rw [quote_entries level (by simp) _ d first]; rfl
          obtain ⟨last, inner, leftLast⟩ :=
            ih (by simp) otherKeys later (Entries.set entry.1 entry.2 before) start
          rw [readEntries, key]
          dsimp only
          split
          · rw [read]
            dsimp only
            split
            · rename_i stands
              cases comma.symm.trans stands
            · rw [inner]
              exact ⟨_, rfl, leftLast⟩
            · rename_i other
              exact absurd comma (other _)
          · rename_i other
            exact absurd colon (other _)

end Containers

/-! ## Values -/

section Values

variable {level : Nat}

theorem reads_readValue_text {s : String} {text : List Char} (opened : c.rest = '"' :: text)
    (read : Reads (readText c) s rest) : Reads (readValue room c) (.text s) rest := by
  obtain ⟨after, read, left⟩ := read
  rw [readValue.eq_def]
  split
  · rw [read]
    exact ⟨_, rfl, left⟩
  · rename_i shape
    cases opened.symm.trans shape
  · rename_i shape
    cases opened.symm.trans shape
  · rename_i other _ _
    exact absurd opened (other _)

theorem reads_readValue_list {items : List Value} {text : List Char}
    (opened : c.rest = '[' :: text)
    (read : items = [] ∧ (Cursor.skipSpace ⟨text, c.position + 1⟩).rest = ']' :: rest ∨
      (Cursor.skipSpace ⟨text, c.position + 1⟩).rest.head? ≠ some ']' ∧
        Reads (readItems room (Cursor.skipSpace ⟨text, c.position + 1⟩)) items rest) :
    Reads (readValue (room + 1) c) (.list items) rest := by
  rw [readValue.eq_def]
  split
  · rename_i shape
    cases opened.symm.trans shape
  · rename_i shape
    cases opened.symm.trans shape
    rw [if_neg (Nat.succ_ne_zero room)]
    rcases read with ⟨rfl, closing⟩ | ⟨others, after, read, left⟩
    · have empty : (Cursor.skipSpace ⟨text, c.position + 1⟩).rest.head? = some ']' := by
        rw [closing, List.head?_cons]
      rw [if_pos empty]
      exact ⟨_, rfl, by simp [Cursor.advance, closing]⟩
    · rw [if_neg others, Nat.add_sub_cancel, read]
      exact ⟨_, rfl, left⟩
  · rename_i shape
    cases opened.symm.trans shape
  · rename_i _ other _
    exact absurd opened (other _)

theorem reads_readValue_object {entries : Entries} {text : List Char}
    (opened : c.rest = '\x7b' :: text)
    (read : entries = [] ∧ (Cursor.skipSpace ⟨text, c.position + 1⟩).rest = '\x7d' :: rest ∨
      (Cursor.skipSpace ⟨text, c.position + 1⟩).rest.head? ≠ some '\x7d' ∧
        Reads (readEntries room [] (Cursor.skipSpace ⟨text, c.position + 1⟩)) entries rest) :
    Reads (readValue (room + 1) c) (.object entries) rest := by
  rw [readValue.eq_def]
  split
  · rename_i shape
    cases opened.symm.trans shape
  · rename_i shape
    cases opened.symm.trans shape
  · rename_i shape
    cases opened.symm.trans shape
    rw [if_neg (Nat.succ_ne_zero room)]
    rcases read with ⟨rfl, closing⟩ | ⟨others, after, read, left⟩
    · have empty : (Cursor.skipSpace ⟨text, c.position + 1⟩).rest.head? = some '\x7d' := by
        rw [closing, List.head?_cons]
      rw [if_pos empty]
      exact ⟨_, rfl, by simp [Cursor.advance, closing]⟩
    · rw [if_neg others, Nat.add_sub_cancel, read]
      exact ⟨_, rfl, left⟩
  · rename_i _ _ other
    exact absurd opened (other _)

def blockText (opening closing : Char) (level : Nat) (lines : List (List Char)) : List Char :=
  opening :: (gapText (level + 1) ++ ((',' :: gapText (level + 1)).intercalate lines ++
    (gapText level ++ [closing])))

theorem toList_block (opening closing : Char) (level : Nat) {lines : List String}
    (filled : lines ≠ []) :
    (Value.block (String.ofList [opening]) (String.ofList [closing]) level lines).toList =
      blockText opening closing level (lines.map String.toList) := by
  have start : ∀ at?, (Value.lineStart at?).toList = gapText at? := by
    intro at?
    simp only [Value.lineStart, String.toList_append, String.toList_ofList]
    rfl
  have comma : ",".toList = [','] := rfl
  rw [Value.block, List.isEmpty_eq_false_iff.mpr filled, blockText]
  simp only [Bool.false_eq_true, if_false, String.toList_append, String.toList_intercalate, start,
    comma, String.toList_ofList, List.append_assoc, List.cons_append, List.nil_append]

theorem writeItems_eq_map (level : Nat) (items : List Value) :
    Value.writeItems false level items = items.map (Value.writeAt false level) := by
  induction items with
  | nil => rfl
  | cons item others ih => rw [Value.writeItems, ih, List.map_cons]

theorem map_toList_writeEntries (level : Nat) (entries : Entries) :
    (Value.writeEntries false level entries).map String.toList =
      entries.map (entryText level) := by
  induction entries with
  | nil => rfl
  | cons entry others ih =>
      have colon : ": ".toList = [':', ' '] := rfl
      rw [Value.writeEntries, List.map_cons, List.map_cons, ih, entryText, String.toList_append,
        String.toList_append, colon, List.append_assoc]
      rfl

theorem rereads_text {s : String} (unpaired : Text.Unpaired s.toList) :
    Rereads room level (.text s) where
  opens := ⟨'"', _, by
    simp only [Value.writeAt, Value.writtenText, String.toList_append]
    rfl, by decide⟩
  reads _ shape := by
    have opened := shape
    simp only [Value.writeAt, Value.writtenText, String.toList_append] at opened
    exact reads_readValue_text opened (reads_writtenText unpaired shape)

theorem rereads_list {items : List Value} (each : ∀ item ∈ items, Rereads room (level + 1) item) :
    Rereads (room + 1) level (.list items) := by
  have written : (Value.writeAt false level (.list items)).toList =
      (Value.block "[" "]" level (items.map (Value.writeAt false (level + 1)))).toList := by
    rw [Value.writeAt, writeItems_eq_map]
  by_cases empty : items = []
  · subst empty
    have brackets : (Value.writeAt false level (.list [])).toList = ['[', ']'] :=
      written.trans (by simp [Value.block])
    refine ⟨⟨'[', _, brackets, by decide⟩, fun {c rest} _ shape => ?_⟩
    rw [brackets] at shape
    refine reads_readValue_list shape (.inl ⟨rfl, ?_⟩)
    exact skipSpace_rest_of_solid rfl rfl
  · have lines : (Value.writeAt false level (.list items)).toList = blockText '[' ']' level
        (items.map (fun item => (item.writeAt false (level + 1)).toList)) := by
      have filled : items.map (Value.writeAt false (level + 1)) ≠ [] := by simpa using empty
      have block := toList_block '[' ']' level filled
      rw [List.map_map] at block
      exact written.trans block
    refine ⟨⟨'[', _, lines, by decide⟩, fun {c rest} _ shape => ?_⟩
    have opened : c.rest = '[' :: (gapText (level + 1) ++ ((',' :: gapText (level + 1)).intercalate
        (items.map (fun item => (item.writeAt false (level + 1)).toList)) ++
          (gapText level ++ ']' :: rest))) := by
      rw [shape, lines, blockText]
      simp
    have opens := opensValue_items empty each (gapText level ++ ']' :: rest)
    have inner : (Cursor.skipSpace ⟨gapText (level + 1) ++ _, c.position + 1⟩).rest = _ :=
      skipSpace_rest rfl isSpace_of_mem_gapText fun d first =>
        isSpace_of_opensValue (opens d first)
    refine reads_readValue_list opened (.inr ⟨fun closes => ?_, reads_readItems empty each inner⟩)
    rw [inner] at closes
    exact ne_bracket_of_opensValue (opens _ closes) rfl

theorem rereads_object {entries : Entries} (once : entries.keys.Nodup)
    (named : ∀ key ∈ entries.keys, Text.Unpaired key.toList)
    (each : ∀ entry ∈ entries, Rereads room (level + 1) entry.2) :
    Rereads (room + 1) level (.object entries) := by
  have written : (Value.writeAt false level (.object entries)).toList =
      (Value.block "\x7b" "\x7d" level (Value.writeEntries false (level + 1) entries)).toList := by
    rw [Value.writeAt]
  by_cases empty : entries = []
  · subst empty
    have braces : (Value.writeAt false level (.object [])).toList = ['\x7b', '\x7d'] :=
      written.trans (by simp [Value.block, Value.writeEntries])
    refine ⟨⟨'\x7b', _, braces, by decide⟩, fun {c rest} _ shape => ?_⟩
    rw [braces] at shape
    refine reads_readValue_object shape (.inl ⟨rfl, ?_⟩)
    exact skipSpace_rest_of_solid rfl rfl
  · have lines : (Value.writeAt false level (.object entries)).toList =
        blockText '\x7b' '\x7d' level (entries.map (entryText (level + 1))) := by
      have filled : Value.writeEntries false (level + 1) entries ≠ [] := by
        intro absent
        have lines := map_toList_writeEntries (level + 1) entries
        rw [absent] at lines
        exact empty (List.map_eq_nil_iff.mp lines.symm)
      have block := toList_block '\x7b' '\x7d' level filled
      rw [map_toList_writeEntries] at block
      exact written.trans block
    refine ⟨⟨'\x7b', _, lines, by decide⟩, fun {c rest} _ shape => ?_⟩
    have opened : c.rest = '\x7b' :: (gapText (level + 1) ++
        ((',' :: gapText (level + 1)).intercalate (entries.map (entryText (level + 1))) ++
          (gapText level ++ '\x7d' :: rest))) := by
      rw [shape, lines, blockText]
      simp
    have quotes := quote_entries (level + 1) empty (gapText level ++ '\x7d' :: rest)
    have inner : (Cursor.skipSpace ⟨gapText (level + 1) ++ _, c.position + 1⟩).rest = _ :=
      skipSpace_rest rfl isSpace_of_mem_gapText fun d first => by rw [quotes d first]; rfl
    have read := reads_readEntries empty
      (fun entry member => named entry.1 (List.mem_map_of_mem member)) each [] inner
    have all : Entries.setAll [] entries = [] ++ entries := Entries.setAll_of_nodup once
    rw [all, List.nil_append] at read
    refine reads_readValue_object opened (.inr ⟨fun closes => ?_, read⟩)
    rw [inner] at closes
    cases quotes _ closes

/-- A character with which a value may begin that is no text, no list and no object. -/
def opensScalar (c : Char) : Bool :=
  opensValue c && c ≠ '"' && c ≠ '[' && c ≠ '\x7b'

theorem opensScalar_of_isDigit {d : Char} (digit : d.isDigit = true) : opensScalar d = true := by
  have other : ∀ e : Char, e.isDigit = false → d ≠ e := by
    rintro e notDigit rfl
    cases notDigit.symm.trans digit
  have mark : (Char.ofNat 0xFEFF).isDigit = false := by decide
  simp [opensScalar, opensValue, isSpace, other ' ' rfl, other '\t' rfl, other '\n' rfl,
    other '\r' rfl, other ']' rfl, other '[' rfl, other '"' rfl, other '\x7b' rfl, other _ mark]

theorem readValue_eq_readScalar {first : Char} {text : List Char} (shape : c.rest = first :: text)
    (opens : opensScalar first = true) : readValue room c = readScalar c := by
  rw [readValue.eq_def]
  split
  · rename_i stands
    cases shape.symm.trans stands
    cases opens
  · rename_i stands
    cases shape.symm.trans stands
    cases opens
  · rename_i stands
    cases shape.symm.trans stands
    cases opens
  · rfl

theorem rereads_scalar {value : Value} {text : List Char}
    (written : (value.writeAt false level).toList = text)
    (opens : ∃ first others, text = first :: others ∧ opensScalar first = true)
    (found : ∀ rest, Ended rest → readName? (text ++ rest) = some (value, text.length) ∨
      readName? (text ++ rest) = none ∧ ∃ n, value = .number n ∧
        readNumber? (text ++ rest) = some (.ok n, text.length)) :
    Rereads room level value := by
  obtain ⟨first, others, rfl, opens⟩ := opens
  have opensToo : opensValue first = true := by
    simp only [opensScalar, Bool.and_eq_true] at opens
    exact opens.1.1.1
  refine ⟨⟨first, others, written, opensToo⟩, fun {c rest} ended shape => ?_⟩
  rw [written] at shape
  rw [readValue_eq_readScalar shape opens]
  exact reads_readScalar shape (List.cons_ne_nil _ _) (shape ▸ found rest ended)

theorem rereads_null : Rereads room level .null := by
  have written : (Value.writeAt false level .null).toList = ['n', 'u', 'l', 'l'] := by
    rw [Value.writeAt]
    rfl
  exact rereads_scalar written ⟨_, _, rfl, rfl⟩ fun rest _ => .inl rfl

theorem rereads_bool (b : Bool) : Rereads room level (.bool b) := by
  cases b with
  | true =>
      have written : (Value.writeAt false level (.bool true)).toList = ['t', 'r', 'u', 'e'] := by
        rw [Value.writeAt]
        rfl
      exact rereads_scalar written ⟨_, _, rfl, rfl⟩ fun rest _ => .inl rfl
  | false =>
      have written : (Value.writeAt false level (.bool false)).toList =
          ['f', 'a', 'l', 's', 'e'] := by
        rw [Value.writeAt]
        rfl
      exact rereads_scalar written ⟨_, _, rfl, rfl⟩ fun rest _ => .inl rfl

theorem rereads_whole {n : Int} (short : Number.Short n) :
    Rereads room level (.number (.whole n)) := by
  have written : (Value.writeAt false level (.number (.whole n))).toList = (toString n).toList := by
    rw [Value.writeAt, Value.writtenNumber]
  have opens : ∃ first others, (toString n).toList = first :: others ∧
      opensScalar first = true := by
    rw [toList_toString]
    obtain ⟨first, others, shape⟩ := List.exists_cons_of_ne_nil (Number.toDigits_ne_nil n.natAbs)
    have digit := Number.isDigit_of_mem_toDigits n.natAbs first (shape ▸ List.mem_cons_self)
    by_cases negative : n < 0
    · rw [decide_eq_true negative]
      exact ⟨'-', _, rfl, rfl⟩
    · rw [decide_eq_false negative, shape]
      exact ⟨_, _, rfl, opensScalar_of_isDigit digit⟩
  refine rereads_scalar written opens fun rest ended =>
    .inr ⟨?_, .whole n, rfl, ended.readNumber?_toString short⟩
  rw [toList_toString, List.append_assoc]
  exact readName?_digits _ _ _

end Values

end Reader

open Reader

/-- A value of which nothing gets lost in its text, with room for containers in each other. -/
inductive Value.Lossless : Nat → Value → Prop where
  | null {room : Nat} : Lossless room .null
  | bool {room : Nat} (b : Bool) : Lossless room (.bool b)
  | whole {room : Nat} {n : Int} (short : Number.Short n) : Lossless room (.number (.whole n))
  | text {room : Nat} {s : String} (unpaired : Text.Unpaired s.toList) : Lossless room (.text s)
  | list {room : Nat} {items : List Value} (each : ∀ item ∈ items, Lossless room item) :
      Lossless (room + 1) (.list items)
  | object {room : Nat} {entries : Entries} (once : entries.keys.Nodup)
      (named : ∀ key ∈ entries.keys, Text.Unpaired key.toList)
      (each : ∀ entry ∈ entries, Lossless room entry.2) :
      Lossless (room + 1) (.object entries)

namespace Value

variable {room : Nat} {value : Value}

theorem Lossless.rereads (lossless : value.Lossless room) (level : Nat) :
    Rereads room level value := by
  induction lossless generalizing level with
  | null => exact rereads_null
  | bool b => exact rereads_bool b
  | whole short => exact rereads_whole short
  | text unpaired => exact rereads_text unpaired
  | list each ih => exact rereads_list fun item member => ih item member (level + 1)
  | object once named each ih =>
      exact rereads_object once named fun entry member => ih entry member (level + 1)

/-- Reading undoes writing. -/
theorem Lossless.read_write (lossless : Lossless mostNested value) :
    Value.read value.write.toList = .ok value := by
  have rereads := lossless.rereads 0
  obtain ⟨first, others, shape, opens⟩ := rereads.opens
  have noMark : value.write.toList.head? ≠ some (Char.ofNat 0xFEFF) := by
    rw [write, shape]
    rintro ⟨⟩
    cases opens
  have start : (Cursor.skipSpace ⟨value.write.toList, 0⟩).rest = value.write.toList ++ [] := by
    rw [write, shape, List.append_nil]
    exact skipSpace_rest_of_solid rfl (isSpace_of_opensValue opens)
  have ended : Ended [] := by rintro d ⟨⟩
  obtain ⟨after, read, left⟩ := rereads.reads ended start
  have ends : after.1.skipSpace.rest = [] :=
    skipSpace_rest (left.trans (List.append_nil []).symm) (by simp) (by rintro d ⟨⟩)
  rw [Value.read, if_neg noMark, read]
  dsimp only
  rw [ends, List.isEmpty_nil, if_pos rfl]

end Value

end StackingPlanner
