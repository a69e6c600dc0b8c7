import Mathlib
import StackingPlanner.Number.Basic

/-!
# Signs of floating-point numbers

The bits of a floating-point number are read by its fields, while the
arithmetic of the core library is defined on unpacked numbers.  Both readings
agree, so the sign of a quotient can be followed through packing and rounding.
-/

namespace StackingPlanner

namespace Number

open Float.Model Float.Model.UnpackedFloat

def isNegative : Sign → Bool
  | .negative => true
  | .positive => false

def unpackedMeaning : UnpackedFloat → Meaning
  | .infinity sign => .infinite (isNegative sign)
  | .notANumber => .undefined
  | .zero sign => .finite ⟨isNegative sign, 0, -1074⟩
  | .finite sign significand exponent _ => .finite ⟨isNegative sign, significand, exponent⟩

/-! ## Fields -/

section Fields

variable (b : BitVec 64) (mantissa : BitVec 52)

theorem toNat_unpackMantissa :
    (@unpackMantissa Format.binary64 b).toNat = b.toNat % twoTo 52 := by
  simp [unpackMantissa, BitVec.extractLsb_toNat, twoTo]

theorem toNat_unpackExponent :
    (@unpackExponent Format.binary64 b).toNat = b.toNat / twoTo 52 % twoTo 11 := by
  simp [unpackExponent, BitVec.extractLsb_toNat, Nat.shiftRight_eq_div_pow, twoTo]

theorem isNegative_unpackSign :
    isNegative (Sign.ofBitVec (@unpackSign Format.binary64 b)) = decide (twoTo 63 ≤ b.toNat) := by
  have width := b.isLt
  have bound : twoTo 63 = 2 ^ 63 := rfl
  have bit : (@unpackSign Format.binary64 b).toNat = b.toNat / 2 ^ 63 := by
    change (b.extractLsb 63 63).toNat = _
    rw [BitVec.extractLsb_toNat, Nat.shiftRight_eq_div_pow]
    omega
  unfold Sign.ofBitVec
  split
  · rename_i clear
    have low : ¬ twoTo 63 ≤ b.toNat := by
      rw [clear, BitVec.toNat_ofNat] at bit
      omega
    simp [isNegative, low]
  · rename_i set
    have high : twoTo 63 ≤ b.toNat := by
      have : (@unpackSign Format.binary64 b).toNat ≠ 0 := fun zero =>
        set (BitVec.eq_of_toNat_eq zero)
      omega
    simp [isNegative, high]

/-- The significand of a normal number has one more bit than are kept of it. -/
theorem toNat_implicit_append : (1#1 ++ mantissa).toNat = twoTo 52 + mantissa.toNat := by
  rw [BitVec.toNat_append, ← Nat.shiftLeft_add_eq_or_of_lt mantissa.isLt]
  rfl

end Fields

/-- A number stands for what its unpacked form stands for. -/
theorem meaning_eq (x : Float) : meaning x = unpackedMeaning x.toModel.unpack := by
  have field := toNat_unpackExponent x.toBits.toBitVec
  have fraction := toNat_unpackMantissa x.toBits.toBitVec
  have sign := isNegative_unpackSign x.toBits.toBitVec
  rw [UInt64.toNat_toBitVec] at field fraction sign
  dsimp only [meaning]
  rw [← field, ← fraction, ← sign]
  unfold Float.Model.unpack UnpackedFloat.unpack
  change _ = unpackedMeaning
    (if @unpackExponent Format.binary64 x.toBits.toBitVec = _ then
      if @unpackMantissa Format.binary64 x.toBits.toBitVec = _ then _ else _
    else if @unpackExponent Format.binary64 x.toBits.toBitVec = _ then
      if _ : @unpackMantissa Format.binary64 x.toBits.toBitVec = _ then _ else _
    else _)
  by_cases full : (@unpackExponent Format.binary64 x.toBits.toBitVec).toNat = 2047
  · rw [if_pos full, if_pos (BitVec.eq_of_toNat_eq full)]
    by_cases empty : (@unpackMantissa Format.binary64 x.toBits.toBitVec).toNat = 0
    · rw [if_pos empty, if_pos (BitVec.eq_of_toNat_eq empty)]
      rfl
    · rw [if_neg empty, if_neg (fun zero => empty (congrArg BitVec.toNat zero))]
      rfl
  · rw [if_neg full, if_neg (fun top => full (congrArg BitVec.toNat top))]
    by_cases low : (@unpackExponent Format.binary64 x.toBits.toBitVec).toNat = 0
    · rw [if_pos low, if_pos (BitVec.eq_of_toNat_eq low)]
      by_cases empty : (@unpackMantissa Format.binary64 x.toBits.toBitVec).toNat = 0
      · rw [dif_pos (BitVec.eq_of_toNat_eq empty), empty]
        rfl
      · rw [dif_neg (fun zero => empty (congrArg BitVec.toNat zero))]
        change _ = Meaning.finite
          ⟨_, _, ((@unpackExponent Format.binary64 x.toBits.toBitVec).toNat : Int) - 1075 + 1⟩
        rw [low]
        rfl
    · rw [if_neg low, if_neg (fun zero => low (congrArg BitVec.toNat zero))]
      change _ = Meaning.finite
        ⟨_, (1#1 ++ @unpackMantissa Format.binary64 x.toBits.toBitVec).toNat, _⟩
      rw [toNat_implicit_append]
      rfl

/-- One number is below another if this is so of their unpacked forms. -/
theorem lt_iff_compare_unpack {x y : Float} :
    x < y ↔ x.toModel.unpack.compare y.toModel.unpack = some .lt := by
  change Float.lt x y = true ↔ _
  rw [Float.lt, decide_eq_true_iff]
  change (x.toModel.unpack.compare y.toModel.unpack == some .lt) = true ↔ _
  exact beq_iff_eq

/-! ## Signs -/

/-- The sign of an unpacked number; what is not a number counts as positive. -/
def signOf : UnpackedFloat → Sign
  | .infinity sign => sign
  | .notANumber => .positive
  | .zero sign => sign
  | .finite sign _ _ _ => sign

def IsUnsigned (x : Float) : Prop := signOf x.toModel.unpack = .positive

theorem pack_eq_packComponents (u : UnpackedFloat) :
    ∃ exponent mantissa, UnpackedFloat.pack Format.binary64 u =
      packComponents Format.binary64 (signOf u) exponent mantissa := by
  cases u with
  | infinity sign => exact ⟨_, _, rfl⟩
  | notANumber => exact ⟨_, _, rfl⟩
  | zero sign => exact ⟨_, _, rfl⟩
  | finite sign significand exponent positive =>
      unfold UnpackedFloat.pack
      dsimp only
      split
      · exact ⟨_, _, rfl⟩
      · split <;> exact ⟨_, _, rfl⟩

theorem signOf_unpack {b : BitVec 64}
    (clear : Sign.ofBitVec (@unpackSign Format.binary64 b) = .positive) :
    signOf (UnpackedFloat.unpack Format.binary64 b) = .positive := by
  unfold UnpackedFloat.unpack
  dsimp only
  split
  · split
    · exact clear
    · rfl
  · split
    · split <;> exact clear
    · exact clear

theorem isUnsigned_pack {u : UnpackedFloat} (unsigned : signOf u = .positive) :
    IsUnsigned (.ofModel (.pack u)) := by
  obtain ⟨exponent, mantissa, packed⟩ := pack_eq_packComponents u
  refine signOf_unpack ?_
  change Sign.ofBitVec (@unpackSign Format.binary64 (UnpackedFloat.pack Format.binary64 u)) = _
  rw [packed, unpackSign_packComponents, Sign.ofBitVec_toBitVec, unsigned]

theorem isUnsigned_ofBits {bits : Nat} (clear : bits < twoTo 63) :
    IsUnsigned (Float.ofBits (UInt64.ofNat bits)) := by
  have bound : twoTo 63 = 2 ^ 63 := rfl
  have same : (UInt64.ofNat bits).toBitVec.toNat = bits := by
    simp
    omega
  have sign := isNegative_unpackSign (UInt64.ofNat bits).toBitVec
  rw [same, decide_eq_false (by omega)] at sign
  refine isUnsigned_pack (signOf_unpack ?_)
  cases bit : Sign.ofBitVec (@unpackSign Format.binary64 (UInt64.ofNat bits).toBitVec) with
  | negative =>
      rw [bit] at sign
      cases sign
  | positive => rfl

/-! ## Quotients -/

theorem signOf_roundWithAccuracy (sign : Sign) (significand : Nat) (exponent : Int)
    (accuracy : Accuracy) :
    signOf (roundWithAccuracy Format.binary64 sign significand exponent accuracy) = sign := by
  unfold roundWithAccuracy
  dsimp only
  split <;> rfl

/-- A quotient that is a number has the quotient of the signs as its sign. -/
theorem signOf_div (u v : UnpackedFloat) :
    UnpackedFloat.div Format.binary64 u v = .notANumber ∨
      signOf (UnpackedFloat.div Format.binary64 u v) = signOf u / signOf v := by
  cases u with
  | notANumber => exact .inl rfl
  | infinity _ =>
      cases v with
      | notANumber => exact .inl rfl
      | infinity _ => exact .inl rfl
      | zero _ => exact .inr rfl
      | finite _ _ _ _ => exact .inr rfl
  | zero _ =>
      cases v with
      | notANumber => exact .inl rfl
      | infinity _ => exact .inr rfl
      | zero _ => exact .inl rfl
      | finite _ _ _ _ => exact .inr rfl
  | finite _ _ _ _ =>
      cases v with
      | notANumber => exact .inl rfl
      | infinity _ => exact .inr rfl
      | zero _ => exact .inr rfl
      | finite _ _ _ _ => exact .inr (signOf_roundWithAccuracy _ _ _ _)

theorem IsUnsigned.div {x y : Float} (numerator : IsUnsigned x) (denominator : IsUnsigned y) :
    IsUnsigned (x / y) := by
  refine isUnsigned_pack ?_
  rcases signOf_div x.toModel.unpack y.toModel.unpack with undefined | sign
  · rw [undefined]
    rfl
  · rw [sign, numerator, denominator]
    rfl

theorem nearestBits_lt (num den : Nat) : nearestBits num den < twoTo 63 := by
  have top : infinityBits < twoTo 63 := by decide
  unfold nearestBits
  split
  · exact Nat.zero_lt_of_lt top
  · exact Nat.lt_of_le_of_lt (Nat.min_le_right _ _) top

theorem isUnsigned_quotient {num : Int} (nonneg : 0 ≤ num) (den : Nat) :
    IsUnsigned (quotient num den) := by
  have sign : decide (num < 0) = false := decide_eq_false (by omega)
  rw [quotient, sign]
  exact isUnsigned_ofBits (nearestBits_lt _ _)

end Number

end StackingPlanner
