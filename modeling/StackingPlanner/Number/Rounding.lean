/-!
# Rounding to nearest

A quotient is rounded to the nearest whole number, a half going to the even
neighbour.  From this rule come the binary floating-point number nearest to a
fraction and the exact value of such a number.
-/

namespace StackingPlanner

namespace Number

def twoTo (exponent : Nat) : Nat := Nat.pow 2 exponent

def tenTo (exponent : Nat) : Nat := Nat.pow 10 exponent

/-- A quotient rounded to the nearest whole number; a half goes to the even neighbour. -/
def roundDiv (num den : Nat) : Nat :=
  let whole := num / den
  let twice := 2 * (num % den)
  if twice < den || (twice = den && whole % 2 = 0) then whole else whole + 1

def roundScaled (num den : Nat) (exponent : Int) : Nat :=
  roundDiv (num * twoTo (-exponent).toNat) (den * twoTo exponent.toNat)

/-- The largest exponent of two whose power is not above `num / den`, both positive. -/
def floorLog2 (num den : Nat) : Int :=
  let estimate : Int := (num.log2 : Int) - den.log2
  if den * twoTo estimate.toNat ≤ num * twoTo (-estimate).toNat then estimate else estimate - 1

/-- The bits of the infinite number, above those of every finite one. -/
def infinityBits : Nat := 0x7FF0000000000000

/-- The bits of the double-precision number nearest to `num / den`, for a positive `den`. -/
def nearestBits (num den : Nat) : Nat :=
  if num = 0 then 0
  else
    let exponent := max (floorLog2 num den - 52) (-1074)
    min ((exponent + 1074).toNat * twoTo 52 + roundScaled num den exponent) infinityBits

def nearest (negative : Bool) (num den : Nat) : Float :=
  Float.ofBits (UInt64.ofNat (nearestBits num den + if negative then twoTo 63 else 0))

/-- The double-precision number nearest to `digits * 10 ^ exponent`. -/
def ofDecimal (negative : Bool) (digits : Nat) (exponent : Int) : Float :=
  let magnitude := ((Nat.toDigits 10 digits).length : Int) + exponent
  if digits = 0 || magnitude < -400 then nearest negative 0 1
  else if magnitude > 400 then nearest negative (twoTo 1024) 1
  else nearest negative (digits * tenTo exponent.toNat) (tenTo (-exponent).toNat)

/-- The double-precision number nearest to a quotient of whole numbers, for a positive `den`. -/
def quotient (num : Int) (den : Nat) : Float := nearest (num < 0) num.natAbs den

/-- A finite floating-point number: its sign and its size `significand * 2 ^ exponent`. -/
structure Binary where
  negative : Bool
  significand : Nat
  exponent : Int
  deriving DecidableEq, Repr

inductive Meaning where
  | finite (value : Binary)
  | infinite (negative : Bool)
  | undefined
  deriving DecidableEq, Repr

/-- Read a floating-point number from its sign, exponent and fraction bits. -/
def meaning (x : Float) : Meaning :=
  let bits := x.toBits.toNat
  let negative := decide (twoTo 63 ≤ bits)
  let field : Nat := bits / twoTo 52 % twoTo 11
  let fraction : Nat := bits % twoTo 52
  if field = 2047 then (if fraction = 0 then .infinite negative else .undefined)
  else if field = 0 then .finite ⟨negative, fraction, -1074⟩
  else .finite ⟨negative, twoTo 52 + fraction, (field : Int) - 1075⟩

namespace Binary

def roundPlaces (value : Binary) (places : Nat) : Nat :=
  roundScaled (value.significand * tenTo places) 1 (-value.exponent)

end Binary

def roundTo (places : Nat) (x : Float) : Float :=
  match meaning x with
  | .finite value => nearest value.negative (value.roundPlaces places) (tenTo places)
  | _ => x

end Number

end StackingPlanner
