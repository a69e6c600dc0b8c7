import StackingPlanner.Number.Shortest

/-!
# Numbers

A number is whole and unbounded, or a double-precision floating-point number;
the two kinds stay apart even where their values agree.  Numbers of either
kind are compared by their exact values, and an undefined one compares with
none.
-/

namespace StackingPlanner

inductive Number where
  | whole (n : Int)
  | real (x : Float)
  deriving Inhabited

namespace Number

/-- Equality of kind and value; floating-point numbers are compared by their bits. -/
def same : Number → Number → Bool
  | .whole n, .whole m => n == m
  | .real x, .real y => x.toBits == y.toBits
  | _, _ => false

instance : BEq Number := ⟨same⟩

/-- The floating-point number nearest to a number. -/
def toFloat : Number → Float
  | .whole n => quotient n 1
  | .real x => x

def text : Number → String
  | .whole n => toString n
  | .real x => floatText x

/-- The most digits of a whole number that is read from a text or shown in one. -/
def mostDigits : Nat := 4300

/-- A whole number that has no more digits than can be read and shown. -/
def Short (n : Int) : Prop := (Nat.toDigits 10 n.natAbs).length ≤ mostDigits

instance (n : Int) : Decidable (Short n) := inferInstanceAs (Decidable (_ ≤ mostDigits))

/-- The exact value of a number: `significand * 2 ^ exponent`, unless it is not finite. -/
inductive Exact where
  | finite (significand exponent : Int)
  | infinite (negative : Bool)
  | undefined
  deriving DecidableEq, Repr

def exact : Number → Exact
  | .whole n => .finite n 0
  | .real x =>
      match meaning x with
      | .finite value =>
          .finite (if value.negative then -value.significand else value.significand)
            value.exponent
      | .infinite negative => .infinite negative
      | .undefined => .undefined

/-- A significand in units of the lower power of two of two exponents. -/
def scaled (significand exponent other : Int) : Int :=
  significand * twoTo (exponent - min exponent other).toNat

/-- The order of two exact values; there is none if one is undefined. -/
def Exact.compare? : Exact → Exact → Option Ordering
  | .undefined, _ => none
  | _, .undefined => none
  | .finite m e, .finite n f => some (compare (scaled m e f) (scaled n f e))
  | .infinite below, .infinite other => some (compare other below)
  | .infinite below, .finite _ _ => some (if below then .lt else .gt)
  | .finite _ _, .infinite below => some (if below then .gt else .lt)

/-- The order of two numbers by their exact values; there is none if one is undefined. -/
def compare? : Number → Number → Option Ordering
  | .whole n, .whole m => some (compare n m)
  | a, b => a.exact.compare? b.exact

def isBelow (a b : Number) : Bool := a.compare? b == some .lt

def isAtMost (a b : Number) : Bool := a.isBelow b || a.compare? b == some .eq

def equals (a b : Number) : Bool := a.compare? b == some .eq

instance : LE Number := ⟨fun a b => a.isAtMost b = true⟩

instance : DecidableLE Number := fun a b => inferInstanceAs (Decidable (a.isAtMost b = true))

instance : LT Number := ⟨fun a b => a.isBelow b = true⟩

instance : DecidableLT Number := fun a b => inferInstanceAs (Decidable (a.isBelow b = true))

theorem whole_le_whole (n m : Int) : whole n ≤ whole m ↔ n ≤ m := by
  change isAtMost (.whole n) (.whole m) = true ↔ _
  simp only [isAtMost, isBelow, compare?, Bool.or_eq_true, beq_iff_eq,
    Option.some.injEq]
  rw [← Std.isLE_compare]
  cases compare n m <;> simp

theorem equals_whole (n m : Int) :
    (whole n).equals (.whole m) = decide (n = m) := by
  simp only [equals, compare?]
  by_cases h : n = m <;> simp [h]

/-- The sum of two numbers, which is whole if both are. -/
def add : Number → Number → Number
  | .whole n, .whole m => .whole (n + m)
  | a, b => .real (a.toFloat + b.toFloat)

def subtract : Number → Number → Number
  | .whole n, .whole m => .whole (n - m)
  | a, b => .real (a.toFloat - b.toFloat)

/-- The number that is reached by adding one again and again. -/
def countOn (a : Number) : Nat → Number
  | 0 => a
  | count + 1 =>
      match a with
      | .whole n => .whole (n + (count + 1))
      | .real x => countOn (.real (x + 1)) count

/--
Whether two numbers have a sum: a whole number beside a floating-point number
is in the range of those.
-/
def isSummable : Number → Number → Bool
  | .whole n, .real _ => !(Number.whole n).toFloat.isInf
  | .real _, .whole n => !(Number.whole n).toFloat.isInf
  | _, _ => true

/-- A whole number divided by a number other than zero. -/
def ratio (num : Int) : Number → Float
  | .whole den => if den < 0 then quotient (-num) den.natAbs else quotient num den.natAbs
  | .real x => quotient num 1 / x

/-- A number rounded to a count of decimal places; a whole number stays as it is. -/
def rounded (places : Nat) : Number → Number
  | .whole n => .whole n
  | .real x => .real (roundTo places x)

/-- The whole number with the value of a number, if there is one. -/
def toWhole? (a : Number) : Option Int :=
  match a.exact with
  | .finite significand exponent =>
      let unit : Int := twoTo (-exponent).toNat
      if significand % unit = 0 then some (significand / unit * twoTo exponent.toNat) else none
  | _ => none

/-- The greatest whole number that is not above a number; zero if that is not finite. -/
def floor (a : Number) : Int :=
  match a.exact with
  | .finite significand exponent =>
      Int.fdiv (significand * twoTo exponent.toNat) (twoTo (-exponent).toNat)
  | _ => 0

def ceiling (a : Number) : Int := if a.equals (.whole a.floor) then a.floor else a.floor + 1

end Number

end StackingPlanner
