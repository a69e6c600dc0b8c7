import StackingPlanner.Text.Utf8
import Mathlib.Tactic.Common

/-!
# Reading undoes encoding

Bytes are read as a text exactly if they are the encoding of that text in UTF-8.
So what cannot be read is the encoding of no text at all.
-/

namespace StackingPlanner

namespace Text

def charBytes (c : Char) : List Nat := (String.utf8EncodeChar c).map UInt8.toNat

def utf8Bytes (cs : List Char) : List Nat := cs.flatMap charBytes

@[simp]
theorem utf8Bytes_cons (c : Char) (cs : List Char) :
    utf8Bytes (c :: cs) = charBytes c ++ utf8Bytes cs := rfl

/-- The bytes of a number that is that of a character. -/
def codeBytes (n : Nat) : List Nat :=
  if n < 0x80 then [n]
  else if n < 0x800 then [n / 0x40 + 0xC0, n % 0x40 + 0x80]
  else if n < 0x10000 then [n / 0x1000 + 0xE0, n / 0x40 % 0x40 + 0x80, n % 0x40 + 0x80]
  else
    [n / 0x40000 + 0xF0, n / 0x1000 % 0x40 + 0x80, n / 0x40 % 0x40 + 0x80, n % 0x40 + 0x80]

/-- A number that is neither that of a surrogate nor too large. -/
def IsCode (n : Nat) : Prop := n < 0xD800 ∨ 0xDFFF < n ∧ n < 0x110000

theorem isCode_toNat (c : Char) : IsCode c.toNat := c.valid

theorem toNat_ofNat {n : Nat} (code : IsCode n) : (Char.ofNat n).toNat = n := by
  rw [Char.ofNat, dif_pos (show n.isValidChar from code)]
  rfl

theorem charBytes_eq (c : Char) : charBytes c = codeBytes c.toNat := by
  have code : c.toNat < 0xD800 ∨ 0xDFFF < c.toNat ∧ c.toNat < 0x110000 := c.valid
  have same : c.val.toNat = c.toNat := rfl
  have byte : ∀ k : Nat, k < 256 → (UInt8.ofNat k).toNat = k := fun k small => by
    simp [Nat.mod_eq_of_lt small]
  simp only [charBytes, String.utf8EncodeChar, codeBytes, same]
  generalize c.toNat = n at code
  by_cases one : n < 0x80
  · rw [if_pos (by omega), if_pos one]
    simp (disch := omega) only [List.map_cons, List.map_nil, byte]
  · rw [if_neg (by omega), if_neg one]
    by_cases two : n < 0x800
    · rw [if_pos (by omega), if_pos two]
      simp (disch := omega) only [List.map_cons, List.map_nil, byte, List.cons.injEq, and_true]
      omega
    · rw [if_neg (by omega), if_neg two]
      by_cases three : n < 0x10000
      · rw [if_pos (by omega), if_pos three]
        simp (disch := omega) only [List.map_cons, List.map_nil, byte, List.cons.injEq, and_true]
        omega
      · rw [if_neg (by omega), if_neg three]
        simp (disch := omega) only [List.map_cons, List.map_nil, byte, List.cons.injEq, and_true]
        omega

variable {cs : List Char} {bytes rest : List Nat} {a b c d n position : Nat}

theorem continues_eq_true_iff : continues b = true ↔ 0x80 ≤ b ∧ b < 0xC0 := by
  simp [continues]

theorem mayFollow_eq_true_iff : mayFollow a b = true ↔ (0x80 ≤ b ∧ b < 0xC0) ∧
    (a = 0xE0 → 0xA0 ≤ b) ∧ (a = 0xED → b < 0xA0) ∧ (a = 0xF0 → 0x90 ≤ b) ∧
      (a = 0xF4 → b < 0x90) := by
  simp [mayFollow, continues]
  grind

/-! ## The equations of reading one character -/

theorem decodeFrom_one (small : a < 0x80) :
    decodeFrom position (a :: rest) = prepend a (decodeFrom (position + 1) rest) := by
  rw [decodeFrom.eq_def]
  exact if_pos small

theorem decodeFrom_two (large : 0xC2 ≤ a) (small : a < 0xE0) (second : continues b = true) :
    decodeFrom position (a :: b :: rest) =
      prepend ((a - 0xC0) * 0x40 + (b - 0x80)) (decodeFrom (position + 2) rest) := by
  have first : ¬ (a < 0xC2 ∨ 0xF5 ≤ a) := by omega
  rw [decodeFrom.eq_def]
  simp only [if_neg (by omega : ¬ a < 0x80), if_neg first, if_pos small, if_pos second]

theorem decodeFrom_three (large : 0xE0 ≤ a) (small : a < 0xF0) (second : mayFollow a b = true)
    (third : continues c = true) :
    decodeFrom position (a :: b :: c :: rest) =
      prepend (((a - 0xE0) * 0x40 + (b - 0x80)) * 0x40 + (c - 0x80))
        (decodeFrom (position + 3) rest) := by
  have first : ¬ (a < 0xC2 ∨ 0xF5 ≤ a) := by omega
  rw [decodeFrom.eq_def]
  simp only [if_neg (by omega : ¬ a < 0x80), if_neg first, if_neg (by omega : ¬ a < 0xE0), second,
    third, Bool.not_true, Bool.false_eq_true, if_false, if_pos small]

theorem decodeFrom_four (large : 0xF0 ≤ a) (small : a < 0xF5) (second : mayFollow a b = true)
    (third : continues c = true) (fourth : continues d = true) :
    decodeFrom position (a :: b :: c :: d :: rest) =
      prepend ((((a - 0xF0) * 0x40 + (b - 0x80)) * 0x40 + (c - 0x80)) * 0x40 + (d - 0x80))
        (decodeFrom (position + 4) rest) := by
  have first : ¬ (a < 0xC2 ∨ 0xF5 ≤ a) := by omega
  rw [decodeFrom.eq_def]
  simp only [if_neg (by omega : ¬ a < 0x80), if_neg first, if_neg (by omega : ¬ a < 0xE0), second,
    third, fourth, Bool.not_true, Bool.false_eq_true, if_false, if_neg (by omega : ¬ a < 0xF0)]

theorem decodeFrom_codeBytes (code : IsCode n) :
    decodeFrom position (codeBytes n ++ rest) =
      prepend n (decodeFrom (position + (codeBytes n).length) rest) := by
  unfold IsCode at code
  have tail : ∀ k : Nat, continues (k % 0x40 + 0x80) = true := fun k =>
    continues_eq_true_iff.mpr (by omega)
  unfold codeBytes
  split
  case isTrue small => exact decodeFrom_one small
  case isFalse =>
    split
    case isTrue =>
      have value : (n / 0x40 + 0xC0 - 0xC0) * 0x40 + (n % 0x40 + 0x80 - 0x80) = n := by omega
      exact (decodeFrom_two (by omega) (by omega) (tail n)).trans (by rw [value]; rfl)
    case isFalse =>
      split
      case isTrue =>
        have value : ((n / 0x1000 + 0xE0 - 0xE0) * 0x40 + (n / 0x40 % 0x40 + 0x80 - 0x80)) * 0x40 +
            (n % 0x40 + 0x80 - 0x80) = n := by omega
        have second : mayFollow (n / 0x1000 + 0xE0) (n / 0x40 % 0x40 + 0x80) = true := by
          rw [mayFollow_eq_true_iff]
          omega
        exact (decodeFrom_three (by omega) (by omega) second (tail n)).trans (by rw [value]; rfl)
      case isFalse =>
        have value : (((n / 0x40000 + 0xF0 - 0xF0) * 0x40 +
            (n / 0x1000 % 0x40 + 0x80 - 0x80)) * 0x40 + (n / 0x40 % 0x40 + 0x80 - 0x80)) * 0x40 +
              (n % 0x40 + 0x80 - 0x80) = n := by omega
        have second : mayFollow (n / 0x40000 + 0xF0) (n / 0x1000 % 0x40 + 0x80) = true := by
          rw [mayFollow_eq_true_iff]
          omega
        exact (decodeFrom_four (by omega) (by omega) second (tail _) (tail n)).trans
          (by rw [value]; rfl)

theorem eq_of_prepend {result : Except Utf8Error (List Char)} (read : prepend n result = .ok cs) :
    ∃ later, result = .ok later ∧ cs = Char.ofNat n :: later := by
  cases result with
  | error e => cases read
  | ok later =>
      cases read
      exact ⟨later, rfl, rfl⟩

/-- Bytes that are read as a text are the bytes of the text. -/
theorem utf8Bytes_of_decodeFrom (decoded : decodeFrom position bytes = .ok cs) :
    bytes = utf8Bytes cs := by
  have cons : ∀ {n later}, IsCode n → utf8Bytes (Char.ofNat n :: later) =
      codeBytes n ++ utf8Bytes later := by
    intro n later code
    rw [utf8Bytes_cons, charBytes_eq, toNat_ofNat code]
  fun_induction decodeFrom position bytes generalizing cs with
  | case1 =>
      cases decoded
      rfl
  | case2 position a rest small ih =>
      obtain ⟨later, read, rfl⟩ := eq_of_prepend decoded
      rw [cons (.inl (by omega)), ← ih read, codeBytes, if_pos small]
      rfl
  | case5 position a large first b rest small second ih =>
      obtain ⟨later, read, rfl⟩ := eq_of_prepend decoded
      rw [continues_eq_true_iff] at second
      rw [cons (.inl (by omega)), ← ih read, codeBytes, if_neg (by omega), if_pos (by omega)]
      simp only [List.cons_append, List.nil_append, List.cons.injEq, and_true]
      omega
  | case10 position a large first b large' second c rest third small ih =>
      obtain ⟨later, read, rfl⟩ := eq_of_prepend decoded
      rw [Bool.not_eq_true', Bool.not_eq_false, mayFollow_eq_true_iff] at second
      rw [Bool.not_eq_true', Bool.not_eq_false, continues_eq_true_iff] at third
      rw [cons (by unfold IsCode; omega), ← ih read, codeBytes, if_neg (by omega),
        if_neg (by omega), if_pos (by omega)]
      simp only [List.cons_append, List.nil_append, List.cons.injEq, and_true]
      omega
  | case13 position a large first b large' second c third large'' d rest fourth ih =>
      obtain ⟨later, read, rfl⟩ := eq_of_prepend decoded
      rw [Bool.not_eq_true', Bool.not_eq_false, mayFollow_eq_true_iff] at second
      rw [Bool.not_eq_true', Bool.not_eq_false, continues_eq_true_iff] at third fourth
      rw [cons (by unfold IsCode; omega), ← ih read, codeBytes, if_neg (by omega),
        if_neg (by omega), if_neg (by omega)]
      simp only [List.cons_append, List.nil_append, List.cons.injEq, and_true]
      omega
  | _ => cases decoded

/-- Bytes are read as a text exactly if they are the bytes of the text. -/
theorem decodeUtf8_eq_ok_iff : decodeUtf8 bytes = .ok cs ↔ bytes = utf8Bytes cs := by
  constructor
  · exact utf8Bytes_of_decodeFrom
  · rintro rfl
    unfold decodeUtf8
    generalize 0 = position
    induction cs generalizing position with
    | nil => rfl
    | cons c cs ih =>
        rw [utf8Bytes_cons, charBytes_eq, decodeFrom_codeBytes (isCode_toNat c), ih, prepend,
          Char.ofNat_toNat]

/-- There is a reason why bytes are not read exactly if they are the bytes of no text. -/
theorem exists_decodeUtf8_error_iff :
    (∃ e, decodeUtf8 bytes = .error e) ↔ ∀ cs, bytes ≠ utf8Bytes cs := by
  constructor
  · rintro ⟨e, fails⟩ cs same
    cases fails.symm.trans (decodeUtf8_eq_ok_iff.mpr same)
  · intro none
    cases read : decodeUtf8 bytes with
    | error e => exact ⟨e, rfl⟩
    | ok cs => exact absurd (decodeUtf8_eq_ok_iff.mp read) (none cs)

end Text

end StackingPlanner
