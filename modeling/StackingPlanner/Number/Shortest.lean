import StackingPlanner.Number.Rounding

/-!
# The shortest decimal that reads back

Every double-precision number is the nearest one to a whole interval of real
numbers.  Its shortest decimal is the point of the coarsest decimal grid that
meets this interval; of two such points the nearer one, and of two equally
near ones that with an even last digit.
-/

namespace StackingPlanner

namespace Number

/-- A positive decimal number `digits * 10 ^ exponent`. -/
structure Decimal where
  digits : Nat
  exponent : Int
  deriving DecidableEq, Repr

namespace Binary

/--
The ends of the interval that rounds to a number, in quarters of its last
place; below a power of two the spacing is half as wide.
-/
def interval (value : Binary) : Nat × Nat :=
  let centre := 4 * value.significand
  (if value.significand = twoTo 52 && value.exponent ≠ -1074 then centre - 1 else centre - 2,
    centre + 2)

/-- The point of the grid of step `10 ^ exponent` that reads back as the number, if one does. -/
def gridPoint? (value : Binary) (exponent : Int) : Option Decimal :=
  let quarter := value.exponent - 2
  let num := twoTo quarter.toNat * tenTo (-exponent).toNat
  let den := twoTo (-quarter).toNat * tenTo exponent.toNat
  let ends := value.interval
  let inside (point : Nat) : Bool :=
    if value.significand % 2 = 0 then
      decide (ends.1 * num ≤ point * den) && decide (point * den ≤ ends.2 * num)
    else decide (ends.1 * num < point * den) && decide (point * den < ends.2 * num)
  let size := 4 * value.significand * num
  let below := size / den
  let nearer := roundDiv size den
  if inside nearer then some ⟨nearer, exponent⟩
  else if inside below then some ⟨below, exponent⟩
  else if inside (below + 1) then some ⟨below + 1, exponent⟩
  else none

/-- The first grid, from a coarse one downwards, with a point that reads back. -/
def firstGridPoint (value : Binary) : Nat → Int → Decimal
  | 0, exponent => ⟨0, exponent⟩
  | steps + 1, exponent =>
      match value.gridPoint? exponent with
      | some point => point
      | none => firstGridPoint value steps (exponent - 1)

/-- The shortest decimal of a positive number. -/
def shortest (value : Binary) : Decimal :=
  let bitLength := (value.significand.log2 : Int) + 1 + value.exponent
  firstGridPoint value 24 (Int.fdiv (bitLength * 30103) 100000 + 1)

end Binary

/-- How a kind of number text is laid out. -/
structure Layout where
  /-- The least power of ten that is written without an exponent. -/
  leastPositional : Int
  /-- The least power of ten above these that is written with an exponent again. -/
  leastExponential : Int
  /-- The least count of digits of an exponent. -/
  exponentDigits : Nat

/--
Floating-point numbers are written without an exponent from `0.0001` up to
below `10 ^ 16`, and an exponent has at least two digits.
-/
def floatLayout : Layout := ⟨-4, 16, 2⟩

def padZeros (width : Nat) (digits : String) : String :=
  String.ofList (List.replicate (width - digits.length) '0') ++ digits

/-- A positive decimal under a layout, always with a point or an exponent. -/
def Decimal.text (layout : Layout) (value : Decimal) : String :=
  let digits := Nat.toDigits 10 value.digits
  let count := digits.length
  let power := (count : Int) + value.exponent - 1
  if layout.leastPositional ≤ power && power < layout.leastExponential then
    if power < 0 then
      "0." ++ padZeros (count + (-power).toNat - 1) (String.ofList digits)
    else
      let whole := power.toNat + 1
      String.ofList (digits.take whole) ++ String.ofList (List.replicate (whole - count) '0') ++
        "." ++ (if count ≤ whole then "0" else String.ofList (digits.drop whole))
  else
    let mantissa := String.ofList (digits.take 1) ++
      (if count ≤ 1 then "" else "." ++ String.ofList (digits.drop 1))
    mantissa ++ "e" ++ (if power < 0 then "-" else "+") ++
      padZeros layout.exponentDigits (toString power.natAbs)

def signed (negative : Bool) (text : String) : String := if negative then "-" ++ text else text

def floatText (x : Float) : String :=
  match meaning x with
  | .undefined => "nan"
  | .infinite negative => signed negative "inf"
  | .finite value =>
      signed value.negative
        (if value.significand = 0 then "0.0" else value.shortest.text floatLayout)

/-- A floating-point number with a positive fixed count of decimal places. -/
def fixedText (places : Nat) (x : Float) : String :=
  match meaning x with
  | .undefined => "nan"
  | .infinite negative => signed negative "inf"
  | .finite value =>
      let scaled := value.roundPlaces places
      signed value.negative
        (toString (scaled / tenTo places) ++ "." ++
          padZeros places (toString (scaled % tenTo places)))

end Number

end StackingPlanner
