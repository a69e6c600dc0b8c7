import Mathlib.Data.List.Forall2
import StackingPlanner.Description.Reading
import StackingPlanner.Proofs.Text.Parts

/-!
# How literals are spelled

A literal can be spelled in many ways: blanks may stand around each of its
parts, and there are three signs for a negation.  A text is read as a literal
exactly if it spells that literal, and whatever spells no literal is reported.
The text of a literal whose words are names is one of its spellings, so reading
undoes writing.
-/

namespace StackingPlanner

namespace Literal

open Text

/-! ## Spellings -/

/-- The ways to write a sign, each with whether it makes a literal positive. -/
inductive Sign : Bool → List Char → Prop where
  | absent : Sign true []
  | dash : Sign false ['-']
  | tilde : Sign false ['~']
  /-- The word must be told apart from the name that follows it. -/
  | word {gap : Char} (blank : isBlank gap = true) : Sign false ['n', 'o', 't', gap]

def Padded (name part : List Char) : Prop :=
  isName name = true ∧ ∃ before after, Blank before ∧ Blank after ∧ part = before ++ name ++ after

/-- The ways to write arguments after a name. -/
inductive Arguments : List (List Char) → List Char → Prop where
  | absent : Arguments [] []
  | none {inner : List Char} (blank : Blank inner) : Arguments [] ('(' :: inner ++ [')'])
  | listed {names parts : List (List Char)} (some : parts ≠ [])
      (padded : List.Forall₂ Padded names parts) :
      Arguments names ('(' :: [','].intercalate parts ++ [')'])

/-- The ways to write a literal: sign, name and arguments with blanks around each of them. -/
inductive Spelling : Literal → List Char → Prop where
  | intro {positive : Bool} {sign name arguments : List Char} {names : List (List Char)}
      {first second third fourth : List Char}
      (signed : Sign positive sign) (named : isName name = true)
      (applied : Arguments names arguments) (leading : Blank first) (afterSign : Blank second)
      (afterName : Blank third) (trailing : Blank fourth) :
      Spelling ⟨⟨String.ofList name, names.map String.ofList⟩, positive⟩
        (first ++ sign ++ second ++ name ++ third ++ arguments ++ fourth)

/-- A literal whose words are all names. -/
structure Spellable (l : Literal) : Prop where
  name : isName l.fluent.name.toList = true
  args : ∀ arg ∈ l.fluent.args, isName arg.toList = true

/-! ## Names -/

section Names

variable {c : Char} {name tail cs : List Char}

theorem continuesName_of_startsName (starts : startsName c = true) : continuesName c = true := by
  simp only [startsName, continuesName, Char.isAlphanum, Bool.or_eq_true] at starts ⊢
  exact starts.imp_left .inl

theorem toNat_of_continuesName (continues : continuesName c = true) :
    65 ≤ c.toNat ∧ c.toNat ≤ 90 ∨ 97 ≤ c.toNat ∧ c.toNat ≤ 122 ∨
      48 ≤ c.toNat ∧ c.toNat ≤ 57 ∨ c.toNat = 95 := by
  change (decide (c.val ≥ 'A'.val ∧ c.val ≤ 'Z'.val) || (c.val ≥ 'a'.val && c.val ≤ 'z'.val) ||
    (c.val ≥ '0'.val && c.val ≤ '9'.val) || c = '_') = true at continues
  simp only [UInt32.le_iff_toNat_le, Bool.or_eq_true, Bool.and_eq_true,
    decide_eq_true_eq] at continues
  change ((65 ≤ c.toNat ∧ c.toNat ≤ 90 ∨ 97 ≤ c.toNat ∧ c.toNat ≤ 122) ∨
    48 ≤ c.toNat ∧ c.toNat ≤ 57) ∨ c = '_' at continues
  rcases continues with codes | rfl
  · omega
  · decide

theorem isBlank_of_continuesName (continues : continuesName c = true) : isBlank c = false := by
  have codes := toNat_of_continuesName continues
  simp only [isBlank, Bool.or_eq_false_iff, Bool.and_eq_false_iff, decide_eq_false_iff_not,
    beq_eq_false_iff_ne]
  omega

theorem continuesName_of_mem (named : isName name = true) (member : c ∈ name) :
    continuesName c = true := by
  cases name with
  | nil => cases member
  | cons first rest =>
      simp only [isName, Bool.and_eq_true] at named
      rcases List.mem_cons.mp member with rfl | later
      · exact continuesName_of_startsName named.1
      · exact List.all_eq_true.mp named.2 c later

theorem isBlank_of_mem (named : isName name = true) : ∀ c ∈ name, isBlank c = false :=
  fun _ member => isBlank_of_continuesName (continuesName_of_mem named member)

theorem not_mem_of_isName (named : isName name = true) (other : continuesName c = false) :
    c ∉ name := by
  intro member
  rw [continuesName_of_mem named member] at other
  cases other

theorem exists_first (named : isName name = true) :
    ∃ first rest, name = first :: rest ∧ startsName first = true := by
  cases name with
  | nil => cases named
  | cons first rest =>
      simp only [isName, Bool.and_eq_true] at named
      exact ⟨first, rest, rfl, named.1⟩

theorem stopsAt_isBlank_append (named : isName name = true) (tail : List Char) :
    StopsAt isBlank (name ++ tail) := by
  obtain ⟨first, rest, rfl, starts⟩ := exists_first named
  rintro c ⟨⟩
  exact isBlank_of_continuesName (continuesName_of_startsName starts)

/-- A name is split off exactly if it is one and does not go on after it. -/
theorem readName?_eq_some_iff : readName? cs = some (name, tail) ↔
    isName name = true ∧ cs = name ++ tail ∧ StopsAt continuesName tail := by
  constructor
  · intro read
    unfold readName? at read
    split at read
    · cases read
    · rename_i first rest
      split at read
      · rename_i starts
        cases read
        refine ⟨?_, ?_, stopsAt_dropWhile continuesName rest⟩
        · rw [isName, starts, List.all_takeWhile, Bool.and_self]
        · rw [List.cons_append, List.takeWhile_append_dropWhile]
      · cases read
  · rintro ⟨named, rfl, stops⟩
    obtain ⟨first, rest, rfl, starts⟩ := exists_first named
    have letters : ∀ c ∈ rest, continuesName c = true := fun c member =>
      continuesName_of_mem named (List.mem_cons_of_mem first member)
    rw [List.cons_append, readName?, if_pos starts, List.takeWhile_append_of_pos letters,
      List.dropWhile_append_of_pos letters, takeWhile_of_stopsAt stops, dropWhile_of_stopsAt stops,
      List.append_nil]

end Names

/-! ## Arguments -/

section Arguments

variable {name part inner cs : List Char} {names parts : List (List Char)} {args : List String}

theorem splitCommas_ne_nil (cs : List Char) : splitCommas cs ≠ [] := by
  unfold splitCommas
  split
  · simp
  · split
    · simp
    · split <;> simp

/-- The parts between the commas, with these between them again, make up the text. -/
theorem intercalate_splitCommas (cs : List Char) : [','].intercalate (splitCommas cs) = cs := by
  induction cs with
  | nil => rfl
  | cons c rest ih =>
      unfold splitCommas
      split
      · rename_i comma
        obtain ⟨part, parts, split⟩ := List.exists_cons_of_ne_nil (splitCommas_ne_nil rest)
        rw [split] at ih ⊢
        rw [List.intercalate_cons_cons, ih, comma]
        rfl
      · split
        · rename_i none
          exact absurd none (splitCommas_ne_nil rest)
        · rename_i part parts split
          rw [split] at ih
          rw [← ih]
          cases parts <;> simp [List.intercalate_cons_cons]

theorem splitCommas_of_not_mem (solid : ',' ∉ part) : splitCommas part = [part] := by
  induction part with
  | nil => rfl
  | cons c rest ih =>
      obtain ⟨other, solid⟩ := not_or.mp (List.mem_cons.not.mp solid)
      rw [splitCommas, if_neg (Ne.symm other), ih solid]

theorem splitCommas_append (solid : ',' ∉ part) (rest : List Char) :
    splitCommas (part ++ ',' :: rest) = part :: splitCommas rest := by
  induction part with
  | nil => rfl
  | cons c part ih =>
      obtain ⟨other, solid⟩ := not_or.mp (List.mem_cons.not.mp solid)
      rw [List.cons_append, splitCommas, if_neg (Ne.symm other), ih solid]

theorem splitCommas_intercalate (some : parts ≠ []) (solid : ∀ part ∈ parts, ',' ∉ part) :
    splitCommas ([','].intercalate parts) = parts := by
  induction parts with
  | nil => exact absurd rfl some
  | cons part others ih =>
      cases others with
      | nil =>
          rw [List.intercalate_singleton]
          exact splitCommas_of_not_mem (solid part List.mem_cons_self)
      | cons next others =>
          rw [List.intercalate_cons_cons, List.append_assoc, List.singleton_append,
            splitCommas_append (solid part List.mem_cons_self),
            ih (List.cons_ne_nil _ _) fun other later =>
              solid other (List.mem_cons_of_mem _ later)]

theorem Padded.trim_eq (padded : Padded name part) : trim part = name := by
  obtain ⟨named, before, after, blank, trailing, rfl⟩ := padded
  exact Text.trim_eq blank trailing (isBlank_of_mem named)

/-- Of the characters that continue no name only blanks stand around a name. -/
theorem Padded.not_mem (padded : Padded name part) {c : Char} (solid : isBlank c = false)
    (other : continuesName c = false) : c ∉ part := by
  obtain ⟨named, before, after, blank, trailing, rfl⟩ := padded
  simp only [List.mem_append, not_or]
  refine ⟨⟨?_, not_mem_of_isName named other⟩, ?_⟩
  · intro member
    rw [blank c member] at solid
    cases solid
  · intro member
    rw [trailing c member] at solid
    cases solid

theorem padded_trim (named : isName (trim part) = true) : Padded (trim part) part := by
  obtain ⟨before, after, blank, trailing, split⟩ := exists_trim part
  exact ⟨named, before, after, blank, trailing, split⟩

theorem forall₂_padded_iff : List.Forall₂ Padded names parts ↔
    parts.map trim = names ∧ names.all isName = true := by
  constructor
  · intro padded
    induction padded with
    | nil => exact ⟨rfl, rfl⟩
    | cons first _ ih =>
        rw [List.map_cons, first.trim_eq, ih.1, List.all_cons, first.1, ih.2]
        exact ⟨rfl, rfl⟩
  · rintro ⟨rfl, named⟩
    induction parts with
    | nil => exact .nil
    | cons part parts ih =>
        rw [List.map_cons, List.all_cons, Bool.and_eq_true] at named
        exact .cons (padded_trim named.1) (ih named.2)

theorem exists_padded (padded : List.Forall₂ Padded names parts) :
    ∀ part ∈ parts, ∃ name, Padded name part := by
  induction padded with
  | nil => simp
  | cons first _ ih => exact List.forall_mem_cons.mpr ⟨⟨_, first⟩, ih⟩

theorem subset_intercalate_commas (part : List Char) (others : List (List Char)) :
    part ⊆ [','].intercalate (part :: others) := by
  cases others <;> simp [List.intercalate_cons_cons]

/-- A list of padded names holds a name. -/
theorem not_blank_of_padded (some : parts ≠ []) (padded : List.Forall₂ Padded names parts) :
    ¬ Blank ([','].intercalate parts) := by
  intro blank
  cases padded with
  | nil => exact some rfl
  | @cons name part _ others first _ =>
      have empty : Blank part := fun c member =>
        blank c (subset_intercalate_commas part others member)
      have none : name = [] := first.trim_eq.symm.trans (trim_eq_nil_iff.mpr empty)
      obtain ⟨named, -⟩ := first
      rw [none] at named
      cases named

theorem splitCommas_of_padded (some : parts ≠ []) (padded : List.Forall₂ Padded names parts) :
    splitCommas ([','].intercalate parts) = parts := by
  apply splitCommas_intercalate some
  intro part listed
  obtain ⟨name, first⟩ := exists_padded padded part listed
  exact first.not_mem (by decide) (by decide)

/-- What stands between parentheses is blank, or it is a list of padded names. -/
theorem readArguments_eq_ok_iff : readArguments inner = .ok args ↔
    (Blank inner ∧ args = []) ∨
      ∃ names parts, parts ≠ [] ∧ List.Forall₂ Padded names parts ∧
        inner = [','].intercalate parts ∧ args = names.map String.ofList := by
  have empty : (trim inner).isEmpty = true ↔ Blank inner := by
    rw [List.isEmpty_iff, trim_eq_nil_iff]
  unfold readArguments
  split
  · rename_i none
    have blank := empty.mp none
    constructor
    · rintro ⟨⟩
      exact .inl ⟨blank, rfl⟩
    · rintro (⟨-, rfl⟩ | ⟨names, parts, some, padded, rfl, -⟩)
      · rfl
      · exact absurd blank (not_blank_of_padded some padded)
  · rename_i some
    dsimp only
    constructor
    · intro read
      split at read
      · rename_i named
        cases read
        exact .inr ⟨_, splitCommas inner, splitCommas_ne_nil inner,
          forall₂_padded_iff.mpr ⟨rfl, named⟩, (intercalate_splitCommas inner).symm, rfl⟩
      · cases read
    · rintro (⟨blank, -⟩ | ⟨names, parts, listed, padded, rfl, rfl⟩)
      · exact absurd (empty.mpr blank) some
      · obtain ⟨trimmed, named⟩ := forall₂_padded_iff.mp padded
        rw [splitCommas_of_padded listed padded, trimmed, if_pos named]

def isInner (c : Char) : Bool := c ≠ '(' && c ≠ ')'

theorem isInner_of_padded (padded : List.Forall₂ Padded names parts) :
    ∀ c ∈ [','].intercalate parts, isInner c = true := by
  refine List.forall_mem_intercalate (by simp [isInner]) fun part listed c inside => ?_
  obtain ⟨name, first⟩ := exists_padded padded part listed
  simp only [isInner, Bool.and_eq_true, decide_eq_true_eq]
  constructor <;> rintro rfl
  · exact first.not_mem (by decide) (by decide) inside
  · exact first.not_mem (by decide) (by decide) inside

theorem isInner_of_blank (blank : Blank inner) : ∀ c ∈ inner, isInner c = true := by
  intro c member
  simp only [isInner, Bool.and_eq_true, decide_eq_true_eq]
  constructor <;> rintro rfl
  · exact absurd (blank _ member) (by decide)
  · exact absurd (blank _ member) (by decide)

theorem readTail_parentheses {before after : List Char} (blank : Blank before)
    (trailing : Blank after) (free : ∀ c ∈ inner, isInner c = true) :
    readTail (before ++ ('(' :: inner ++ [')']) ++ after) = readArguments inner := by
  have opening : StopsAt isBlank ('(' :: (inner ++ ')' :: after)) := by
    rintro c ⟨⟩
    decide
  have closing : StopsAt isInner (')' :: after) := by
    rintro c ⟨⟩
    decide
  have shape : before ++ ('(' :: inner ++ [')']) ++ after =
      before ++ '(' :: (inner ++ ')' :: after) := by simp
  have inside : (inner ++ ')' :: after).takeWhile isInner = inner := by
    rw [List.takeWhile_append_of_pos free, takeWhile_of_stopsAt closing, List.append_nil]
  have outside : (inner ++ ')' :: after).dropWhile isInner = ')' :: after := by
    rw [List.dropWhile_append_of_pos free, dropWhile_of_stopsAt closing]
  have rest : (dropBlanks after).isEmpty = true :=
    List.isEmpty_iff.mpr (dropBlanks_eq_nil_iff.mpr trailing)
  unfold isInner at inside outside
  rw [shape, readTail, dropBlanks_append blank opening]
  simp only [inside, outside, rest, if_true]

/-- After a name come its arguments, with blanks before and after them, and nothing else. -/
theorem readTail_eq_ok_iff : readTail cs = .ok args ↔
    ∃ before names arguments after, Blank before ∧ Arguments names arguments ∧ Blank after ∧
      cs = before ++ arguments ++ after ∧ args = names.map String.ofList := by
  constructor
  · intro read
    obtain ⟨before, blank, split⟩ := exists_blank cs
    unfold readTail at read
    split at read
    · rename_i none
      cases read
      refine ⟨before, [], [], [], blank, .absent, blank_nil, ?_, rfl⟩
      rw [split, none]
      simp
    · rename_i rest opening
      dsimp only at read
      have parts := List.takeWhile_append_dropWhile (p := fun c => c ≠ '(' && c ≠ ')') (l := rest)
      split at read
      · rename_i after closing
        split at read
        · rename_i trailing
          rw [closing] at parts
          have shape : ∀ inner, inner ++ ')' :: after = rest →
              cs = before ++ ('(' :: inner ++ [')']) ++ after := by
            rintro inner rfl
            rw [split, opening]
            simp
          have last := dropBlanks_eq_nil_iff.mp (List.isEmpty_iff.mp trailing)
          rcases readArguments_eq_ok_iff.mp read with
            ⟨empty, rfl⟩ | ⟨names, listed, some, padded, inner, rfl⟩
          · exact ⟨before, [], _, after, blank, .none empty, last, shape _ parts, rfl⟩
          · rw [inner] at parts
            exact ⟨before, names, _, after, blank, .listed some padded, last, shape _ parts, rfl⟩
        · cases read
      · cases read
    · cases read
  · rintro ⟨before, names, arguments, after, blank, arguments, trailing, rfl, rfl⟩
    cases arguments with
    | absent =>
        have all : Blank (before ++ [] ++ after) := (blank.append blank_nil).append trailing
        rw [readTail, dropBlanks_eq_nil_iff.mpr all]
        rfl
    | none empty =>
        rw [readTail_parentheses blank trailing (isInner_of_blank empty)]
        exact readArguments_eq_ok_iff.mpr (.inl ⟨empty, rfl⟩)
    | listed some padded =>
        rw [readTail_parentheses blank trailing (isInner_of_padded padded)]
        exact readArguments_eq_ok_iff.mpr (.inr ⟨_, _, some, padded, rfl, rfl⟩)

end Arguments

/-! ## Signs -/

section Signs

variable {sign name tail cs body arguments before after : List Char} {positive : Bool}
  {names : List (List Char)}

def Ends (tail : List Char) : Prop :=
  StopsAt continuesName tail ∧ StopsAt startsName (dropBlanks tail)

theorem not_continuesName_of_isBlank {c : Char} (blank : isBlank c = true) :
    continuesName c = false := by
  cases continues : continuesName c with
  | false => rfl
  | true => exact (Bool.eq_false_iff.mp (isBlank_of_continuesName continues) blank).elim

theorem ends_of_blank (blank : Blank cs) : Ends cs := by
  refine ⟨fun c first => ?_, ?_⟩
  · exact not_continuesName_of_isBlank (blank c (List.mem_of_mem_head? first))
  · rw [dropBlanks_eq_nil_iff.mpr blank]
    simp [StopsAt]

theorem ends_of_parenthesis (blank : Blank before) (rest : List Char) :
    Ends (before ++ '(' :: rest) := by
  constructor
  · cases before with
    | nil =>
        rintro c ⟨⟩
        decide
    | cons first before =>
        rintro c ⟨⟩
        exact not_continuesName_of_isBlank (blank _ List.mem_cons_self)
  · have opening : StopsAt isBlank ('(' :: rest) := by
      rintro c ⟨⟩
      decide
    rw [dropBlanks_append blank opening]
    rintro c ⟨⟩
    decide

theorem ends_of_arguments (blank : Blank before) (written : Arguments names arguments)
    (trailing : Blank after) : Ends (before ++ arguments ++ after) := by
  cases written with
  | absent => exact ends_of_blank ((blank.append blank_nil).append trailing)
  | none _ | listed _ _ =>
      rw [List.append_assoc]
      exact ends_of_parenthesis blank _

/-- Before a name and nothing but its arguments no sign is read, even if the name is `not`. -/
theorem readSign_name (named : isName name = true) (ends : Ends tail) :
    readSign (name ++ tail) = (true, name ++ tail) := by
  obtain ⟨first, rest, shape, starts⟩ := exists_first named
  unfold readSign
  split
  · rename_i same
    rw [shape, List.cons_append, List.cons.injEq] at same
    rw [same.1] at starts
    cases starts
  · rename_i same
    rw [shape, List.cons_append, List.cons.injEq] at same
    rw [same.1] at starts
    cases starts
  · rename_i gap others same
    split
    · rename_i signed
      rw [Bool.and_eq_true] at signed
      -- The name is the word itself, so that another name would have to follow it.
      have word : readName? ('n' :: 'o' :: 't' :: gap :: others) =
          some (['n', 'o', 't'], gap :: others) := by
        refine readName?_eq_some_iff.mpr ⟨by decide, rfl, ?_⟩
        rintro c ⟨⟩
        exact not_continuesName_of_isBlank signed.1
      have whole := readName?_eq_some_iff.mpr ⟨named, rfl, ends.1⟩
      rw [same, word] at whole
      cases whole
      have next : dropBlanks (gap :: others) = dropBlanks others :=
        List.dropWhile_cons_of_pos signed.1
      obtain ⟨-, stops⟩ := ends
      rw [next] at stops
      cases first : (dropBlanks others).head? with
      | none =>
          rw [first] at signed
          cases signed.2
      | some c =>
          rw [first, Option.any_some, stops c first] at signed
          cases signed.2
    · rw [same]
  · rfl

theorem exists_sign (read : readSign cs = (positive, body)) :
    ∃ sign gap, Sign positive sign ∧ Blank gap ∧ cs = sign ++ gap ++ body := by
  unfold readSign at read
  split at read
  · cases read
    exact ⟨['-'], [], .dash, blank_nil, rfl⟩
  · cases read
    exact ⟨['~'], [], .tilde, blank_nil, rfl⟩
  · rename_i gap rest
    split at read
    · rename_i signed
      cases read
      rw [Bool.and_eq_true] at signed
      obtain ⟨before, blank, split⟩ := exists_blank rest
      refine ⟨['n', 'o', 't', gap], before, .word signed.1, blank, ?_⟩
      rw [List.append_assoc, ← split]
      rfl
    · cases read
      exact ⟨[], [], .absent, blank_nil, rfl⟩
  · cases read
    exact ⟨[], [], .absent, blank_nil, rfl⟩

/-- A sign before a name is read, and after it the name comes next. -/
theorem exists_readSign (signed : Sign positive sign) (leading : Blank before)
    (gap : Blank after) (named : isName name = true) (ends : Ends tail) :
    ∃ body, readSign (dropBlanks (before ++ sign ++ after ++ (name ++ tail))) = (positive, body) ∧
      dropBlanks body = name ++ tail := by
  have next := stopsAt_isBlank_append named tail
  cases signed with
  | absent =>
      have blank : Blank (before ++ [] ++ after) := (leading.append blank_nil).append gap
      refine ⟨name ++ tail, ?_, dropBlanks_append blank_nil next⟩
      rw [dropBlanks_append blank next, readSign_name named ends]
  | dash | tilde =>
      refine ⟨after ++ (name ++ tail), ?_, dropBlanks_append gap next⟩
      have shape : ∀ c, before ++ [c] ++ after ++ (name ++ tail) =
          before ++ c :: (after ++ (name ++ tail)) := by simp
      rw [shape, dropBlanks_append leading]
      · rfl
      · rintro c ⟨⟩
        decide
  | @word c blank =>
      refine ⟨name ++ tail, ?_, dropBlanks_append blank_nil next⟩
      have shape : before ++ ['n', 'o', 't', c] ++ after ++ (name ++ tail) =
          before ++ 'n' :: 'o' :: 't' :: c :: (after ++ (name ++ tail)) := by simp
      rw [shape, dropBlanks_append leading]
      · obtain ⟨first, rest, rfl, starts⟩ := exists_first named
        rw [readSign, dropBlanks_append gap next, blank, List.cons_append, List.head?_cons,
          Option.any_some, starts]
        rfl
      · rintro c ⟨⟩
        decide

end Signs

/-! ## Reading and writing -/

section Parsing

variable {s : String} {l : Literal}

/-- A text is read as a literal exactly if it spells it. -/
theorem parse_eq_ok_iff : parse s = .ok l ↔ Spelling l s.toList := by
  constructor
  · intro read
    unfold parse at read
    obtain ⟨first, leading, split⟩ := exists_blank s.toList
    rcases signed : readSign (dropBlanks s.toList) with ⟨positive, body⟩
    obtain ⟨sign, gap, written, blank, shape⟩ := exists_sign signed
    obtain ⟨second, afterSign, rest⟩ := exists_blank body
    simp only [signed] at read
    split at read
    · cases read
    · rename_i name tail word
      split at read
      · rename_i args tailRead
        cases read
        obtain ⟨named, here, -⟩ := readName?_eq_some_iff.mp word
        obtain ⟨third, names, arguments, fourth, afterName, applied, trailing, ending, rfl⟩ :=
          readTail_eq_ok_iff.mp tailRead
        have spelling := Spelling.intro written named applied leading (blank.append afterSign)
          afterName trailing
        rw [split, shape, rest, here, ending]
        simpa using spelling
      · cases read
  · intro spelling
    generalize text : s.toList = cs at spelling
    cases spelling with
    | @intro positive sign name arguments names first second third fourth signed named applied
        leading afterSign afterName trailing =>
      have ends := ends_of_arguments afterName applied trailing
      obtain ⟨body, read, next⟩ := exists_readSign signed leading afterSign named ends
      have shape : first ++ sign ++ second ++ name ++ third ++ arguments ++ fourth =
          first ++ sign ++ second ++ (name ++ (third ++ arguments ++ fourth)) := by simp
      have word := readName?_eq_some_iff.mpr ⟨named, rfl, ends.1⟩
      have tailRead : readTail (third ++ arguments ++ fourth) = .ok (names.map String.ofList) :=
        readTail_eq_ok_iff.mpr ⟨_, _, _, _, afterName, applied, trailing, rfl, rfl⟩
      rw [parse, text, shape, read]
      simp only [next, word, tailRead]

/-- What a text spells has names for words. -/
theorem Spelling.spellable {cs : List Char} (spelling : Spelling l cs) : l.Spellable := by
  cases spelling with
  | @intro _ _ _ _ names _ _ _ _ _ named applied =>
    refine ⟨by simpa using named, ?_⟩
    have each : names.all isName = true := by
      cases applied with
      | absent | none _ => rfl
      | listed _ padded => exact (forall₂_padded_iff.mp padded).2
    simpa [List.all_eq_true] using each

theorem padded_self {name : List Char} (named : isName name = true) : Padded name name :=
  ⟨named, [], [], blank_nil, blank_nil, by simp⟩

theorem exists_arguments {f : Fluent} (named : ∀ arg ∈ f.args, isName arg.toList = true) :
    ∃ arguments, Arguments (f.args.map String.toList) arguments ∧
      f.text.toList = f.name.toList ++ arguments := by
  unfold Fluent.text Fluent.applied
  split
  · rename_i none
    refine ⟨[], ?_, (List.append_nil _).symm⟩
    rw [List.isEmpty_iff.mp none]
    exact .absent
  · rename_i some
    have padded : List.Forall₂ Padded (f.args.map String.toList) (f.args.map String.toList) := by
      rw [List.forall₂_same]
      intro part listed
      obtain ⟨arg, member, rfl⟩ := List.mem_map.mp listed
      exact padded_self (named arg member)
    refine ⟨_, .listed ?_ padded, ?_⟩
    · simpa using some
    · simp [String.toList_intercalate]

/-- The text of a literal whose words are names is one of its spellings. -/
theorem Spellable.spelling (spellable : l.Spellable) : Spelling l l.text.toList := by
  obtain ⟨⟨name, args⟩, positive⟩ := l
  obtain ⟨named, names⟩ := spellable
  obtain ⟨arguments, written, shape⟩ := exists_arguments names
  have spells : ∀ {sign : List Char}, Sign positive sign →
      Spelling ⟨⟨name, args⟩, positive⟩ (sign ++ (name.toList ++ arguments)) := by
    intro sign signed
    have spelling := Spelling.intro signed named written blank_nil blank_nil blank_nil blank_nil
    simpa [Function.comp_def] using spelling
  unfold text
  cases positive with
  | true => simpa [shape] using spells .absent
  | false => simpa [shape] using spells .dash

theorem ofValue_eq_ok_iff : ofValue (.text s) = .ok l ↔ parse s = .ok l := by
  rw [ofValue]
  cases read : parse s with
  | ok m => simp
  | error misspelling => simp

/-- A literal is read again from its text exactly if its words are names. -/
theorem ofValue_text_iff : ofValue (.text l.text) = .ok l ↔ l.Spellable := by
  rw [ofValue_eq_ok_iff, parse_eq_ok_iff]
  exact ⟨Spelling.spellable, Spellable.spelling⟩

/--
A text is read as a literal exactly if it spells that literal, and whatever
spells none is reported.  A literal whose words are names is read again from its
text, and so is every literal that was read.
-/
theorem reads_exactly_spellings :
    (∀ s l, ofValue (.text s) = .ok l ↔ Spelling l s.toList) ∧
      (∀ s : String, (¬ ∃ l, Spelling l s.toList) →
        ∃ failure, ofValue (.text s) = .error failure ∧
          failure.report.name = "ConfigurationError") ∧
      (∀ l : Literal, l.Spellable → ofValue (.text l.text) = .ok l) ∧
      ∀ s l, ofValue (.text s) = .ok l → ofValue (.text l.text) = .ok l := by
  have reads : ∀ s l, ofValue (.text s) = .ok l ↔ Spelling l s.toList := fun s l =>
    ofValue_eq_ok_iff.trans parse_eq_ok_iff
  refine ⟨reads, fun s none => ?_, fun l spellable => ?_, fun s l read => ?_⟩
  · cases read : parse s with
    | ok l => exact absurd ⟨l, parse_eq_ok_iff.mp read⟩ none
    | error misspelling =>
        refine ⟨.literalForm s misspelling, by rw [ofValue, read], ?_⟩
        cases misspelling <;> rfl
  · exact ofValue_text_iff.mpr spellable
  · exact ofValue_text_iff.mpr ((reads s l).mp read).spellable

/-- The word `not` is a sign before a name, and the name itself before parentheses. -/
theorem reads_exactly_spellings_not :
    ofValue (.text "not on( a , b )") = .ok (.fails (.on "a" "b")) ∧
      ofValue (.text (holds ⟨"not", ["a"]⟩).text) = .ok (holds ⟨"not", ["a"]⟩) ∧
      ∃ failure, ofValue (.text "- not a") = .error failure ∧
        failure.report.name = "ConfigurationError" := by
  obtain ⟨reads, refused, again, -⟩ := reads_exactly_spellings
  have negated : parse "not on( a , b )" = .ok (.fails (.on "a" "b")) := by rfl
  have unread : parse "- not a" = .error .form := by rfl
  refine ⟨(reads _ _).mpr (parse_eq_ok_iff.mp negated), again _ ⟨by decide, by decide⟩, ?_⟩
  refine refused _ ?_
  rintro ⟨l, spelling⟩
  cases unread.symm.trans (parse_eq_ok_iff.mpr spelling)

end Parsing

end Literal

end StackingPlanner
