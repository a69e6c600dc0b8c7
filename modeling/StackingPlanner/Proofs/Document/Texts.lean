import StackingPlanner.Document.Reader
import StackingPlanner.Document.Writer
import Mathlib.Data.List.Chain
import Mathlib.Tactic.Common

/-!
# Written texts are read again

Each character of a text is written by itself or by escapes of its UTF-16 code
units, and reading gives these code units.  They make up the text again unless a
lone high surrogate comes right before a lone low one: these are taken for the
pair that stands for one character.
-/

namespace StackingPlanner

namespace Text

/-! ## Code units -/

def isHigh (unit : Nat) : Bool := 0xD800 ≤ unit && unit < 0xDC00

def isLow (unit : Nat) : Bool := 0xDC00 ≤ unit && unit < 0xE000

/-- A text in which no lone high surrogate comes right before a lone low one. -/
def Unpaired (cs : List Char) : Prop :=
  cs.IsChain (fun c d => ¬ (isHigh (code c) = true ∧ isLow (code d) = true))

instance (cs : List Char) : Decidable (Unpaired cs) :=
  inferInstanceAs (Decidable (cs.IsChain _))

def units (c : Char) : List Nat :=
  if code c < 0x10000 then [code c]
  else [0xD800 + (code c - 0x10000) / 0x400, 0xDC00 + (code c - 0x10000) % 0x400]

/-- The code of a character is its own, or it stands in for a surrogate with that code. -/
theorem code_cases (c : Char) :
    (isSurrogate (code c) = true ∧ c.toNat = code c + standInOffset) ∨
      (isSurrogate (code c) = false ∧ c.toNat = code c) := by
  have valid : c.toNat < 0xD800 ∨ 0xDFFF < c.toNat ∧ c.toNat < 0x110000 := c.valid
  rw [code, surrogate?]
  generalize c.toNat = n at valid ⊢
  split
  · rename_i stands
    rw [Option.getD_some]
    refine .inl ⟨stands, ?_⟩
    simp only [isSurrogate, Bool.and_eq_true, decide_eq_true_eq] at stands
    omega
  · rw [Option.getD_none]
    refine .inr ⟨?_, rfl⟩
    simp only [isSurrogate, Bool.and_eq_false_iff, decide_eq_false_iff_not]
    omega

theorem code_of_small {c : Char} (small : c.toNat < standInOffset) : code c = c.toNat := by
  rcases code_cases c with ⟨-, same⟩ | ⟨-, same⟩ <;> omega

theorem code_lt (c : Char) : code c < 0x110000 := by
  have valid : c.toNat < 0xD800 ∨ 0xDFFF < c.toNat ∧ c.toNat < 0x110000 := c.valid
  rcases code_cases c with ⟨-, same⟩ | ⟨-, same⟩ <;> omega

theorem unpaired_of_ascii {cs : List Char} (ascii : ∀ c ∈ cs, c.toNat < 0x80) : Unpaired cs := by
  refine List.Pairwise.isChain (List.pairwise_of_forall_mem_list fun c member d _ pair => ?_)
  have small := ascii c member
  have own : code c = c.toNat := code_of_small (by unfold standInOffset; omega)
  simp only [isHigh, own, Bool.and_eq_true, decide_eq_true_eq] at pair
  omega

theorem charOfUnit_code (c : Char) : charOfUnit (code c) = c := by
  unfold charOfUnit
  rcases code_cases c with ⟨stands, same⟩ | ⟨plain, same⟩
  · rw [if_pos stands, ← same, Char.ofNat_toNat]
  · rw [plain, if_neg Bool.false_ne_true, ← same, Char.ofNat_toNat]

theorem exists_units (c : Char) :
    ∃ first rest, units c = first :: rest ∧ (isLow first = true → code c = first) := by
  have bound := code_lt c
  unfold units
  split
  · exact ⟨_, _, rfl, fun _ => rfl⟩
  · refine ⟨_, _, rfl, fun low => ?_⟩
    simp only [isLow, Bool.and_eq_true, decide_eq_true_eq] at low
    omega

end Text

namespace Reader

open Text

theorem joinUnits_cons {unit : Nat} {others : List Nat}
    (apart : isHigh unit = true → ∀ next ∈ others.head?, isLow next = false) :
    joinUnits (unit :: others) = charOfUnit unit :: joinUnits others := by
  cases others with
  | nil => rfl
  | cons next rest =>
      rw [joinUnits, if_neg]
      rintro ⟨from?, below, low, upTo⟩
      have high : isHigh unit = true := by simp [isHigh, from?, below]
      have other := apart high next rfl
      simp [isLow, low, upTo] at other

/-- The two code units of a character make it up, whatever comes next. -/
theorem joinUnits_pair {n : Nat} (large : 0x10000 ≤ n) (valid : n < 0x110000) (rest : List Nat) :
    joinUnits ((0xD800 + (n - 0x10000) / 0x400) :: (0xDC00 + (n - 0x10000) % 0x400) :: rest) =
      Char.ofNat n :: joinUnits rest := by
  have value : 0x10000 + (0xD800 + (n - 0x10000) / 0x400 - 0xD800) * 0x400 +
      (0xDC00 + (n - 0x10000) % 0x400 - 0xDC00) = n := by omega
  rw [joinUnits, if_pos (by omega), value]

/-- The code units of a text make it up. -/
theorem joinUnits_units {cs : List Char} (unpaired : Unpaired cs) :
    joinUnits (cs.flatMap units) = cs := by
  induction cs with
  | nil => rfl
  | cons c rest ih =>
      have others := ih unpaired.tail
      rw [List.flatMap_cons, units]
      split
      · rw [List.singleton_append, joinUnits_cons, others, charOfUnit_code]
        -- What comes after a high surrogate begins no pair: its first unit is a low one only if
        -- the next character is a lone low surrogate itself.
        intro high next first
        cases rest with
        | nil => cases first
        | cons d more =>
            obtain ⟨unit, left, shape, lone⟩ := exists_units d
            rw [List.flatMap_cons, shape, List.cons_append, List.head?_cons, Option.mem_def,
              Option.some.injEq] at first
            subst first
            refine Bool.eq_false_iff.mpr fun low => ?_
            exact (List.isChain_cons_cons.mp unpaired).1 ⟨high, (lone low).symm ▸ low⟩
      · rename_i large
        have plain : c.toNat = code c := by
          rcases code_cases c with ⟨stands, -⟩ | ⟨-, same⟩
          · simp only [isSurrogate, Bool.and_eq_true, decide_eq_true_eq] at stands
            omega
          · exact same
        rw [List.cons_append, List.cons_append, List.nil_append,
          joinUnits_pair (Nat.not_lt.mp large) (code_lt c), others, ← plain, Char.ofNat_toNat]

/-! ## Escapes -/

theorem hexValue?_digitChar : ∀ n < 16, hexValue? n.digitChar = some n := by decide

theorem hex_succ {width : Nat} (positive : 0 < width) (n : Nat) :
    (hex (width + 1) n).toList = (hex width (n / 16)).toList ++ [(n % 16).digitChar] := by
  simp only [hex, String.toList_ofList]
  by_cases single : n < 16
  · -- The quotient is zero, and the digit that it is written with takes the place of padding.
    have first : n / 16 = 0 := Nat.div_eq_of_lt single
    have zero : Nat.toDigits 16 0 = ['0'] := rfl
    obtain ⟨fewer, rfl⟩ := Nat.exists_eq_succ_of_ne_zero (Nat.pos_iff_ne_zero.mp positive)
    rw [Nat.toDigits_eq_if (by decide), if_pos single, first, zero, Nat.mod_eq_of_lt single]
    simp [← List.replicate_append_replicate (n := fewer) (m := 1)]
  · rw [Nat.toDigits_eq_if (by decide), if_neg single]
    simp

theorem exists_hex {n : Nat} (small : n < 0x10000) :
    ∃ a b c d, (hex 4 n).toList = [a, b, c, d] ∧ unit? a b c d = some n := by
  have last : ∀ m, (hex 1 m).toList = (List.replicate (1 - (Nat.toDigits 16 m).length) '0') ++
      Nat.toDigits 16 m := fun m => by simp [hex]
  have first : n / 16 / 16 / 16 < 16 := by omega
  refine ⟨(n / 16 / 16 / 16).digitChar, (n / 16 / 16 % 16).digitChar, (n / 16 % 16).digitChar,
    (n % 16).digitChar, ?_, ?_⟩
  · rw [hex_succ (by decide), hex_succ (by decide), hex_succ (by decide), last,
      Nat.toDigits_eq_if (by decide), if_pos first]
    rfl
  · have value :
        ((n / 16 / 16 / 16 * 16 + n / 16 / 16 % 16) * 16 + n / 16 % 16) * 16 + n % 16 = n := by
      omega
    have digit : ∀ m, hexValue? (m % 16).digitChar = some (m % 16) := fun m =>
      hexValue?_digitChar _ (Nat.mod_lt m (by decide))
    simp only [unit?, hexValue?_digitChar _ first, digit]
    exact congrArg some value

def ReadsUnits (cs rest : List Char) (codes : List Nat) : Prop :=
  ∀ start position, ∃ last, readUnits start cs position = .ok (codes, ⟨rest, last⟩)

namespace ReadsUnits

variable {tail rest : List Char} {codes : List Nat} {c : Char}

theorem quote (rest : List Char) : ReadsUnits ('"' :: rest) rest [] :=
  fun _ position => ⟨position + 1, rfl⟩

theorem plain (reads : ReadsUnits tail rest codes) (unquoted : c ≠ '"') (straight : c ≠ '\\')
    (visible : 0x20 ≤ c.toNat) : ReadsUnits (c :: tail) rest (c.toNat :: codes) := by
  intro start position
  obtain ⟨last, read⟩ := reads start (position + 1)
  refine ⟨last, ?_⟩
  rw [readUnits.eq_def]
  split
  · rename_i shape
    cases shape
  · rename_i shape
    exact absurd (List.cons.inj shape).1 unquoted
  · rename_i shape
    exact absurd (List.cons.inj shape).1 straight
  · rename_i shape
    exact absurd (List.cons.inj shape).1 straight
  · rename_i shape
    exact absurd (List.cons.inj shape).1 straight
  · rename_i shape
    cases shape
    rw [if_neg (Nat.not_lt.mpr visible), read]

theorem escaped (reads : ReadsUnits tail rest codes) {unit : Nat}
    (known : escaped? c = some unit) : ReadsUnits ('\\' :: c :: tail) rest (unit :: codes) := by
  intro start position
  obtain ⟨last, read⟩ := reads start (position + 2)
  refine ⟨last, ?_⟩
  have other : c ≠ 'u' := by
    rintro rfl
    cases known
  rw [readUnits]
  · rw [if_neg other, known, read]
  · exact fun _ _ _ _ _ _ same _ => other same

theorem unicode {first : Char} (reads : ReadsUnits (first :: tail) rest codes) {n : Nat}
    (small : n < 0x10000) :
    ReadsUnits ((Value.unitEscape n).toList ++ first :: tail) rest (n :: codes) := by
  intro start position
  obtain ⟨last, read⟩ := reads start (position + 6)
  obtain ⟨a, b, c, d, digits, value⟩ := exists_hex small
  refine ⟨last, ?_⟩
  have shape : (Value.unitEscape n).toList = '\\' :: 'u' :: [a, b, c, d] := by
    rw [Value.unitEscape, String.toList_append, digits]
    rfl
  simp only [shape, List.cons_append, List.nil_append, readUnits, value, read]

theorem charEscape {first : Char} (reads : ReadsUnits (first :: tail) rest codes) (c : Char) :
    ReadsUnits ((Value.charEscape c).toList ++ first :: tail) rest (units c ++ codes) := by
  have bound := code_lt c
  unfold Value.charEscape units
  dsimp only
  split
  · rename_i small
    exact reads.unicode small
  · have second : 0xDC00 + (code c - 0x10000) % 0x400 < 0x10000 := by omega
    have shape : ∀ n, (Value.unitEscape n).toList ++ first :: tail =
        '\\' :: ((Value.unitEscape n).toList.tail ++ first :: tail) := by
      intro n
      simp [Value.unitEscape]
    have later := reads.unicode second
    rw [shape] at later
    have all := later.unicode (by omega : 0xD800 + (code c - 0x10000) / 0x400 < 0x10000)
    rw [← shape, ← List.append_assoc, ← String.toList_append] at all
    exact all

theorem writtenChar {first : Char} (reads : ReadsUnits (first :: tail) rest codes) (c : Char) :
    ReadsUnits ((Value.writtenChar false c).toList ++ first :: tail) rest (units c ++ codes) := by
  have own : c.toNat < 0x80 → units c = [c.toNat] := by
    intro ascii
    have same : code c = c.toNat := code_of_small (by unfold standInOffset; omega)
    rw [units, same, if_pos (by omega)]
  have letter : ∀ {e : Char} {unit : Nat}, escaped? e = some unit → c.toNat = unit → unit < 0x80 →
      ReadsUnits (('\\' :: e :: []) ++ first :: tail) rest (units c ++ codes) := by
    rintro e unit known rfl ascii
    rw [own ascii]
    exact reads.escaped known
  unfold Value.writtenChar
  split
  · rename_i same
    exact letter (e := '"') rfl (same ▸ rfl) (by decide)
  rename_i unquoted
  split
  · rename_i same
    exact letter (e := '\\') rfl (same ▸ rfl) (by decide)
  rename_i straight
  split
  · rename_i same
    exact letter (e := 'n') rfl (same ▸ rfl) (by decide)
  split
  · rename_i same
    exact letter (e := 'r') rfl (same ▸ rfl) (by decide)
  split
  · rename_i same
    exact letter (e := 't') rfl (same ▸ rfl) (by decide)
  split
  · rename_i same
    exact letter (e := 'f') rfl same (by decide)
  split
  · rename_i same
    exact letter (e := 'b') rfl same (by decide)
  split
  · exact reads.charEscape c
  rename_i visible
  split
  · rename_i ascii
    rw [Bool.or_false, decide_eq_true_eq] at ascii
    rw [own (by omega), String.toList_singleton]
    exact reads.plain unquoted straight (Nat.not_lt.mp visible)
  · exact reads.charEscape c

/-- What is written of a text is read as its code units, up to the closing quote. -/
theorem written (cs rest : List Char) :
    ReadsUnits (cs.flatMap (fun c => (Value.writtenChar false c).toList) ++ '"' :: rest) rest
      (cs.flatMap units) := by
  induction cs with
  | nil => exact quote rest
  | cons c others ih =>
      obtain ⟨first, tail, shape⟩ : ∃ first tail,
          others.flatMap (fun c => (Value.writtenChar false c).toList) ++ '"' :: rest =
            first :: tail := List.exists_cons_of_ne_nil (by simp)
      rw [shape] at ih
      rw [List.flatMap_cons, List.flatMap_cons, List.append_assoc, shape]
      exact ih.writtenChar c

end ReadsUnits

def Reads {α : Type} {c : Cursor} (result : Result (α × Later c)) (a : α) (rest : List Char) :
    Prop :=
  ∃ after, result = .ok (a, after) ∧ after.1.rest = rest

theorem reads_readText {c : Cursor} {text rest : List Char} {codes : List Nat}
    (opened : c.rest = '"' :: text) (reads : ReadsUnits text rest codes) :
    Reads (readText c) (String.ofList (joinUnits codes)) rest := by
  obtain ⟨last, read⟩ := reads c.position (c.position + 1)
  unfold readText
  split
  · rename_i shape
    cases opened.symm.trans shape
    split
    · rename_i units
      cases units.symm.trans read
      exact ⟨_, rfl, rfl⟩
    · rename_i units
      cases units.symm.trans read
  · rename_i other
    exact absurd opened (other _)

/-- A written text is read again. -/
theorem reads_writtenText {s : String} (unpaired : Unpaired s.toList) {c : Cursor}
    {rest : List Char} (shape : c.rest = (Value.writtenText false s).toList ++ rest) :
    Reads (readText c) s rest := by
  have opened : c.rest =
      '"' :: (s.toList.flatMap (fun c => (Value.writtenChar false c).toList) ++ '"' :: rest) := by
    rw [shape]
    simp [Value.writtenText, String.toList_join, List.flatMap_map]
  have reads := reads_readText opened (ReadsUnits.written s.toList rest)
  rwa [joinUnits_units unpaired, String.ofList_toList] at reads

end Reader

end StackingPlanner
