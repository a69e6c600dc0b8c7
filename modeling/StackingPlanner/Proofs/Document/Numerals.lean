import StackingPlanner.Document.Reader
import StackingPlanner.Document.Writer
import StackingPlanner.Proofs.Number.Digits
import StackingPlanner.Proofs.Text.Parts

/-!
# Written whole numbers are read again

A whole number is read from its sign and its digits, if these are not too many
and what comes next cannot belong to a number.
-/

namespace StackingPlanner

namespace Reader

/-- What may come right after a value that was written: a comma, a line feed or nothing. -/
def Ended (rest : List Char) : Prop := ∀ c ∈ rest.head?, c = ',' ∨ c = '\n'

variable {rest : List Char}

theorem Ended.takeWhile_isDigit (ended : Ended rest) {digits : List Char}
    (each : ∀ c ∈ digits, c.isDigit = true) :
    (digits ++ rest).takeWhile Char.isDigit = digits := by
  have stops : Text.StopsAt Char.isDigit rest := by
    intro c first
    rcases ended c first with rfl | rfl <;> rfl
  rw [List.takeWhile_append_of_pos each, Text.takeWhile_of_stopsAt stops, List.append_nil]

theorem Ended.fractionDigits (ended : Ended rest) : fractionDigits rest = [] := by
  cases rest with
  | nil => rfl
  | cons c others => rcases ended c rfl with rfl | rfl <;> rfl

theorem Ended.exponentPart (ended : Ended rest) : exponentPart rest = none := by
  cases rest with
  | nil => rfl
  | cons c others => rcases ended c rfl with rfl | rfl <;> rfl

/-- The digits of a number are taken for its whole part, even if they are just a zero. -/
theorem Ended.whole (ended : Ended rest) (n : Nat) :
    (if (Nat.toDigits 10 n ++ rest).head? = some '0' then ['0']
      else (Nat.toDigits 10 n ++ rest).takeWhile Char.isDigit) = Nat.toDigits 10 n := by
  split
  · rename_i zero
    rw [Number.eq_zero_of_head?_toDigits zero]
    rfl
  · exact ended.takeWhile_isDigit (Number.isDigit_of_mem_toDigits n)

def signText (negative : Bool) : List Char := if negative then ['-'] else []

theorem head?_signText (negative : Bool) (n : Nat) (rest : List Char) :
    (signText negative ++ (Nat.toDigits 10 n ++ rest)).head? = some '-' ↔ negative = true := by
  cases negative with
  | true => exact iff_of_true rfl rfl
  | false =>
      obtain ⟨first, others, shape⟩ := List.exists_cons_of_ne_nil (Number.toDigits_ne_nil n)
      have digit := Number.isDigit_of_mem_toDigits n first (shape ▸ List.mem_cons_self)
      refine iff_of_false (fun minus => ?_) Bool.false_ne_true
      rw [shape] at minus
      cases Option.some.inj minus
      cases digit

theorem Ended.readNumber?_digits (ended : Ended rest) {n : Nat}
    (few : (Nat.toDigits 10 n).length ≤ Number.mostDigits) (negative : Bool) :
    readNumber? (signText negative ++ (Nat.toDigits 10 n ++ rest)) =
      some (.ok (.whole (if negative then -n else n)),
        (signText negative ++ Nat.toDigits 10 n).length) := by
  have digits : (Nat.toDigits 10 n).isEmpty = false :=
    List.isEmpty_eq_false_iff.mpr (Number.toDigits_ne_nil n)
  unfold readNumber?
  extract_lets minus body whole afterWhole fraction fractionLength power powerLength length exponent
  have signed : minus ↔ negative = true := head?_signText negative n rest
  have bodyEq : body = Nat.toDigits 10 n ++ rest := by
    unfold body
    simp only [signed]
    cases negative <;> rfl
  have wholeEq : whole = Nat.toDigits 10 n := by
    unfold whole
    rw [bodyEq]
    exact ended.whole n
  have afterEq : afterWhole = rest := by
    unfold afterWhole
    rw [wholeEq, bodyEq, List.drop_left]
  have fractionEq : fraction = [] := by
    unfold fraction
    rw [afterEq, ended.fractionDigits]
  have fractionLengthEq : fractionLength = 0 := by
    unfold fractionLength
    rw [fractionEq]
    rfl
  have powerEq : power = none := by
    unfold power
    rw [afterEq, fractionLengthEq]
    exact ended.exponentPart
  have powerLengthEq : powerLength = 0 := by
    unfold powerLength
    rw [powerEq]
  have lengthEq : length = (signText negative ++ Nat.toDigits 10 n).length := by
    unfold length
    rw [wholeEq, fractionLengthEq, powerLengthEq, List.length_append]
    simp only [signed]
    cases negative <;> rfl
  rw [wholeEq, digits, fractionEq, powerEq, lengthEq]
  simp only [wholeOf, if_neg (Nat.not_lt.mpr few), Number.digitsValue_toDigits]
  simp [signed]

theorem toList_toString (n : Int) :
    (toString n).toList = signText (decide (n < 0)) ++ Nat.toDigits 10 n.natAbs := by
  cases n with
  | ofNat n =>
      change (String.ofList (Nat.toDigits 10 n)).toList = [] ++ Nat.toDigits 10 n
      rw [String.toList_ofList, List.nil_append]
  | negSucc n =>
      have negative : decide (Int.negSucc n < 0) = true := decide_eq_true (Int.negSucc_lt_zero n)
      change ("-" ++ String.ofList (Nat.toDigits 10 (n + 1))).toList = _
      rw [String.toList_append, negative]
      exact congrArg (['-'] ++ ·) String.toList_ofList

/-- A whole number that is not too long is read again. -/
theorem Ended.readNumber?_toString (ended : Ended rest) {n : Int} (short : Number.Short n) :
    readNumber? ((toString n).toList ++ rest) =
      some (.ok (.whole n), (toString n).toList.length) := by
  have value : (if decide (n < 0) = true then -(n.natAbs : Int) else n.natAbs) = n := by
    simp only [decide_eq_true_eq]
    split <;> omega
  rw [toList_toString, List.append_assoc, ended.readNumber?_digits short, value]

end Reader

end StackingPlanner
