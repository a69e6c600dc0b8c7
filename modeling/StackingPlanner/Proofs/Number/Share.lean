import StackingPlanner.Proofs.Number.Sign

/-!
# Shares

A share is a number from zero to one by its exact value.  The ratio of a count
to a number that is not below zero has no negative sign, so it is a share as soon
as it is found to be below one.
-/

namespace StackingPlanner

namespace Number

open Float.Model Float.Model.UnpackedFloat

/-! ## The order of exact values -/

section Scaled

variable {m e f : Int}

@[simp]
theorem scaled_zero (e f : Int) : scaled 0 e f = 0 := Int.zero_mul _

theorem scaled_of_le (order : e ≤ f) : scaled m e f = m := by
  rw [scaled, Int.min_eq_left order, Int.sub_self]
  exact Int.mul_one m

theorem scaled_pos (positive : 0 < m) (e f : Int) : 0 < scaled m e f :=
  Int.mul_pos positive (Int.natCast_pos.mpr (Nat.two_pow_pos _))

theorem scaled_neg (negative : m < 0) (e f : Int) : scaled m e f < 0 :=
  Int.mul_neg_of_neg_of_pos negative (Int.natCast_pos.mpr (Nat.two_pow_pos _))

end Scaled

@[simp]
theorem exact_whole (n : Int) : (whole n).exact = .finite n 0 := rfl

section Compare

variable {a b : Number} {m n e f : Int}

theorem compare?_of_exact (left : a.exact = .finite m e) (right : b.exact = .finite n f) :
    a.compare? b = some (compare (scaled m e f) (scaled n f e)) := by
  cases a with
  | real x => simp only [compare?, left, right, Exact.compare?]
  | whole k =>
      cases b with
      | real y => simp only [compare?, left, right, Exact.compare?]
      | whole l =>
          cases left
          cases right
          rw [scaled_of_le (Int.le_refl 0), scaled_of_le (Int.le_refl 0)]
          rfl

theorem isBelow_iff (left : a.exact = .finite m e) (right : b.exact = .finite n f) :
    a.isBelow b = true ↔ scaled m e f < scaled n f e := by
  simp [isBelow, compare?_of_exact left right, Int.compare_eq_lt]

theorem equals_iff (left : a.exact = .finite m e) (right : b.exact = .finite n f) :
    a.equals b = true ↔ scaled m e f = scaled n f e := by
  simp [equals, compare?_of_exact left right]

theorem isAtMost_iff (left : a.exact = .finite m e) (right : b.exact = .finite n f) :
    a.isAtMost b = true ↔ scaled m e f ≤ scaled n f e := by
  have below := isBelow_iff left right
  have equal : (a.compare? b == some .eq) = true ↔ _ := equals_iff left right
  rw [isAtMost, Bool.or_eq_true, below, equal]
  omega

end Compare

/-! ## Exact values of floating-point numbers -/

section Real

variable {x : Float}

theorem exact_of_unpack_zero {sign : Sign} (unpacked : x.toModel.unpack = .zero sign) :
    (real x).exact = .finite 0 (-1074) := by
  rw [exact, meaning_eq, unpacked]
  cases sign <;> rfl

theorem exact_of_unpack_finite {sign : Sign} {m : Nat} {e : Int} {positive : 0 < m}
    (unpacked : x.toModel.unpack = .finite sign m e positive) :
    (real x).exact = .finite (if isNegative sign then -(m : Int) else m) e := by
  rw [exact, meaning_eq, unpacked]
  rfl

theorem significand_lt {value : Binary} (finite : meaning x = .finite value) :
    value.significand < twoTo 53 := by
  have double : twoTo 53 = twoTo 52 + twoTo 52 := rfl
  have fraction : x.toBits.toNat % twoTo 52 < twoTo 52 := Nat.mod_lt _ (by decide)
  dsimp only [meaning] at finite
  split at finite
  · split at finite <;> cases finite
  · split at finite
    · cases finite
      dsimp only
      omega
    · cases finite
      dsimp only
      omega

/-- A number that is neither below zero nor equal to it has no negative sign. -/
theorem isUnsigned_of_above (above : isBelow (.real x) (.whole 0) = false)
    (nonzero : equals (.real x) (.whole 0) = false) : IsUnsigned x := by
  unfold IsUnsigned
  cases unpacked : x.toModel.unpack with
  | notANumber => rfl
  | infinity sign =>
      cases sign with
      | positive => rfl
      | negative =>
          have value : (real x).exact = .infinite true := by
            rw [exact, meaning_eq, unpacked]
            rfl
          have below : isBelow (.real x) (.whole 0) = true := by
            simp only [isBelow, compare?, value, exact_whole, Exact.compare?, if_true,
              beq_self_eq_true]
          cases above.symm.trans below
  | zero sign =>
      have equal := (equals_iff (exact_of_unpack_zero unpacked) (exact_whole 0)).mpr
        (by rw [scaled_zero, scaled_zero])
      cases nonzero.symm.trans equal
  | finite sign m e positive =>
      cases sign with
      | positive => rfl
      | negative =>
          have low : scaled (-(m : Int)) e 0 < scaled 0 0 e := by
            rw [scaled_zero]
            exact scaled_neg (by omega) _ _
          have below := (isBelow_iff (exact_of_unpack_finite unpacked) (exact_whole 0)).mpr low
          cases above.symm.trans below

end Real

/-! ## Numbers from zero to one -/

structure IsShare (a : Number) : Prop where
  low : Number.isAtMost (.whole 0) a = true
  high : a.isAtMost (.whole 1) = true

theorem isShare_zero : IsShare (.real 0) := ⟨by decide +kernel, by decide +kernel⟩

theorem isShare_one : IsShare (.real 1) := ⟨by decide +kernel, by decide +kernel⟩

theorem isShare_of_lt_one {x : Float} (unsigned : IsUnsigned x) (below : x < 1) :
    IsShare (.real x) := by
  have one : (1 : Float).toModel.unpack = .finite .positive (twoTo 52) (-52) (by decide) := rfl
  have order := lt_iff_compare_unpack.mp below
  unfold IsUnsigned at unsigned
  rw [one] at order
  cases unpacked : x.toModel.unpack with
  | infinity sign =>
      rw [unpacked] at order unsigned
      cases unsigned
      cases order
  | notANumber =>
      rw [unpacked] at order
      cases order
  | zero sign =>
      have value := exact_of_unpack_zero unpacked
      constructor
      case low =>
        have same := (scaled_zero 0 (-1074)).trans (scaled_zero (-1074) 0).symm
        exact (isAtMost_iff (exact_whole 0) value).mpr (Int.le_of_eq same)
      case high =>
        rw [isAtMost_iff value (exact_whole 1), scaled_zero]
        exact Int.le_of_lt (scaled_pos Int.one_pos _ _)
  | finite sign m e positive =>
      rw [unpacked] at order unsigned
      cases unsigned
      have value := exact_of_unpack_finite unpacked
      have short : m < twoTo 53 :=
        @significand_lt x ⟨false, m, e⟩ (by rw [meaning_eq, unpacked]; rfl)
      have smaller : e < -52 ∨ e = -52 ∧ m < twoTo 52 := by
        have order := Option.some.inj order
        rwa [Ordering.then_eq_lt, Int.compare_eq_lt, Std.LawfulEqCmp.compare_eq_iff_eq,
          Nat.compare_eq_lt] at order
      constructor
      case low =>
        rw [isAtMost_iff (exact_whole 0) value, scaled_zero]
        exact Int.le_of_lt (scaled_pos (Int.natCast_pos.mpr positive) _ _)
      case high =>
        have unit : scaled 1 0 e = twoTo (-e).toNat := by
          rw [scaled, Int.min_eq_right (by omega), Int.one_mul, Int.zero_sub]
        have fits : m ≤ twoTo (-e).toNat := by
          rcases smaller with lower | ⟨rfl, least⟩
          · have more : twoTo 53 ≤ twoTo (-e).toNat :=
              Nat.pow_le_pow_right (by decide) (by omega)
            omega
          · exact Nat.le_of_lt least
        rw [isAtMost_iff value (exact_whole 1), scaled_of_le (by omega), unit]
        exact Int.ofNat_le.mpr fits

/-- The ratio of a count to a number above zero, or to an undefined one, has no negative sign. -/
theorem isUnsigned_ratio {count : Int} (counted : 0 ≤ count) {most : Number}
    (above : most.isBelow (.whole 0) = false) (nonzero : most.equals (.whole 0) = false) :
    IsUnsigned (ratio count most) := by
  cases most with
  | whole n =>
      have order : ¬ n < 0 := by
        intro negative
        have below := (isBelow_iff (exact_whole n) (exact_whole 0)).mpr
          (by rwa [scaled_of_le (Int.le_refl 0), scaled_zero])
        cases above.symm.trans below
      rw [ratio, if_neg order]
      exact isUnsigned_quotient counted _
  | real x => exact (isUnsigned_quotient counted 1).div (isUnsigned_of_above above nonzero)

end Number

end StackingPlanner
