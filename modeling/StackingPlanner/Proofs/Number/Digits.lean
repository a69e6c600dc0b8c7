import StackingPlanner.Number.Numeral
import Mathlib.Data.Nat.Digits.Defs
import Mathlib.Tactic.Common

/-!
# The digits of a natural number

The digits of a number are written from the highest one on, without a leading
zero, and their value is the number.  So a number that is read from few digits
has few.
-/

namespace StackingPlanner

namespace Number

variable {base n : Nat}

theorem forall_mem_toDigits {P : Char → Prop} (positional : 1 < base)
    (each : ∀ d < base, P d.digitChar) (n : Nat) : ∀ c ∈ Nat.toDigits base n, P c := by
  induction n using Nat.strongRecOn with
  | _ n ih =>
    rw [Nat.toDigits_eq_if positional]
    split
    · rename_i single
      simpa using each n single
    · rename_i large
      rw [List.forall_mem_append]
      refine ⟨ih _ (Nat.div_lt_self (by omega) positional), ?_⟩
      simpa using each _ (Nat.mod_lt n (by omega))

theorem isDigit_of_mem_toDigits (n : Nat) : ∀ c ∈ Nat.toDigits 10 n, c.isDigit = true :=
  forall_mem_toDigits (by decide) (by decide) n

theorem digitsValue_append (before : Nat) (cs ds : List Char) :
    digitsValue before (cs ++ ds) = digitsValue (digitsValue before cs) ds :=
  List.foldl_append

theorem digitsValue_toDigits (n : Nat) : digitsValue 0 (Nat.toDigits 10 n) = n := by
  have digit : ∀ d < 10, d.digitChar.toNat - 48 = d := by decide
  induction n using Nat.strongRecOn with
  | _ n ih =>
    rw [Nat.toDigits_eq_if (by decide)]
    split
    · rename_i single
      simp [digitsValue, digit n single]
    · rename_i large
      rw [digitsValue_append, ih _ (Nat.div_lt_self (by omega) (by decide))]
      simp only [digitsValue, List.foldl_cons, List.foldl_nil, digit _ (Nat.mod_lt n (by decide))]
      omega

theorem toDigits_ne_nil (n : Nat) : Nat.toDigits 10 n ≠ [] := by
  rw [Nat.toDigits_eq_if (by decide)]
  split <;> simp

/-- Only the digits of zero begin with a zero. -/
theorem eq_zero_of_head?_toDigits {rest : List Char}
    (zero : (Nat.toDigits 10 n ++ rest).head? = some '0') : n = 0 := by
  have digit : ∀ d < 10, d.digitChar = '0' → d = 0 := by decide
  induction n using Nat.strongRecOn generalizing rest with
  | _ n ih =>
    rw [Nat.toDigits_eq_if (by decide)] at zero
    split at zero
    · rename_i single
      exact digit n single (Option.some.inj zero)
    · rename_i large
      rw [List.append_assoc] at zero
      have none := ih _ (Nat.div_lt_self (by omega) (by decide)) zero
      omega

/-! ## Short numbers -/

theorem digitsValue_lt {cs : List Char} (each : ∀ c ∈ cs, c.isDigit = true) (before : Nat) :
    digitsValue before cs < (before + 1) * 10 ^ cs.length := by
  induction cs generalizing before with
  | nil => simp [digitsValue]
  | cons c cs ih =>
      obtain ⟨digit, others⟩ := List.forall_mem_cons.mp each
      have small : c.toNat - 48 < 10 := by
        simp only [Char.isDigit, Bool.and_eq_true, decide_eq_true_eq, UInt32.le_iff_toNat_le]
          at digit
        have bound : c.toNat ≤ 57 := digit.2
        omega
      calc digitsValue before (c :: cs)
          = digitsValue (before * 10 + (c.toNat - 48)) cs := rfl
        _ < (before * 10 + (c.toNat - 48) + 1) * 10 ^ cs.length := ih others _
        _ ≤ (before + 1) * 10 * 10 ^ cs.length := Nat.mul_le_mul_right _ (by omega)
        _ = (before + 1) * 10 ^ (c :: cs).length := by
            rw [List.length_cons, Nat.pow_succ', Nat.mul_assoc]

theorem short_iff {n : Int} : Short n ↔ n.natAbs < 10 ^ mostDigits := by
  constructor
  · intro short
    have below := digitsValue_lt (isDigit_of_mem_toDigits n.natAbs) 0
    rw [digitsValue_toDigits, Nat.zero_add, Nat.one_mul] at below
    exact Nat.lt_of_lt_of_le below (Nat.pow_le_pow_right (by decide) short)
  · exact Nat.toDigits_length 10 n.natAbs mostDigits (by decide)

theorem neg_pow_lt_one {digits : Nat} : (-10 ^ digits : Int) < 1 :=
  Int.lt_trans (Int.neg_neg_of_pos (Int.pow_pos (by decide))) Int.one_pos

theorem not_short_neg_pow {digits : Nat} (many : mostDigits ≤ digits) :
    ¬ Short (-10 ^ digits) := by
  rw [short_iff, Int.natAbs_neg, Int.natAbs_pow, Nat.not_lt]
  exact Nat.pow_le_pow_right (by decide) many

/-- With either sign, a number that is read from few digits is short. -/
theorem short_of_digits {cs : List Char} (each : ∀ c ∈ cs, c.isDigit = true)
    (few : cs.length ≤ mostDigits) (negative : Bool) :
    Short (if negative then -(digitsValue 0 cs : Int) else digitsValue 0 cs) := by
  have value : (if negative then -(digitsValue 0 cs : Int) else digitsValue 0 cs).natAbs =
      digitsValue 0 cs := by
    split <;> simp
  rw [short_iff, value]
  have below := digitsValue_lt each 0
  rw [Nat.zero_add, Nat.one_mul] at below
  exact Nat.lt_of_lt_of_le below (Nat.pow_le_pow_right (by decide) few)

theorem short_of_readWhole? {text : String} {n : Int} (read : readWhole? text = some n) :
    Short n := by
  obtain ⟨cs, -, read⟩ := Option.bind_eq_some_iff.mp read
  dsimp only at read
  split at read
  · cases read
  · rename_i plain
    simp only [Bool.or_eq_true, not_or, Bool.not_eq_true', Bool.not_eq_false, decide_eq_true_eq,
      Nat.not_lt] at plain
    obtain ⟨⟨-, few⟩, each⟩ := plain
    cases read
    exact short_of_digits (List.all_eq_true.mp each) few _

end Number

end StackingPlanner
