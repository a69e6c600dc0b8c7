import StackingPlanner.Number.Basic
import StackingPlanner.Text.Blank
import StackingPlanner.Text.Digit

/-!
# Reading numerals

Numerals are read between blanks other than information separators, with
digits of any script, an optional sign and single underscores between digits.
-/

namespace StackingPlanner

namespace Number

/-- The characters of a numeral: digits become `0` to `9`, all else stays. -/
def normalDigits (cs : List Char) : List Char :=
  cs.map (fun c => match Text.digitValue? c with
    | some value => Char.ofNat (48 + value)
    | none => c)

/-- The value of a run of ASCII digits, from the digits before it. -/
def digitsValue (before : Nat) (cs : List Char) : Nat :=
  cs.foldl (fun value c => value * 10 + (c.toNat - 48)) before

/-- Drop the underscores of a text; each of them must stand between two digits. -/
def dropUnderscores? : Bool → List Char → Option (List Char)
  | _, [] => some []
  | afterDigit, '_' :: rest =>
      match rest with
      | c :: _ => if afterDigit && c.isDigit then dropUnderscores? false rest else none
      | [] => none
  | _, c :: rest => (dropUnderscores? c.isDigit rest).map (c :: ·)

def readSign : List Char → Bool × List Char
  | '-' :: rest => (true, rest)
  | '+' :: rest => (false, rest)
  | cs => (false, cs)

/-- Whether a character may stand around a numeral: a blank that is no information separator. -/
def isMargin (c : Char) : Bool := Text.isBlank c && !(0x1C ≤ c.toNat && c.toNat ≤ 0x1F)

/-- The plain characters of a numeral, without the blanks around it and its underscores. -/
def plain? (text : String) : Option (List Char) :=
  dropUnderscores? false (normalDigits (Text.strip isMargin text.toList))

def readWhole? (text : String) : Option Int := do
  let (negative, digits) := readSign (← plain? text)
  if digits.isEmpty || mostDigits < digits.length || !digits.all Char.isDigit then none
  else
    let value : Int := digitsValue 0 digits
    some (if negative then -value else value)

/-- The exponent that ends a numeral; none is zero. -/
def readExponent? : List Char → Option Int
  | [] => some 0
  | c :: rest => do
      if c ≠ 'e' ∧ c ≠ 'E' then none
      let (negative, digits) := readSign rest
      if digits.isEmpty || !digits.all Char.isDigit then none
      else
        let value : Int := digitsValue 0 digits
        some (if negative then -value else value)

def readReal? (text : String) : Option Float := do
  let (negative, body) := readSign (← plain? text)
  let word := String.ofList (body.map Char.toLower)
  if word = "inf" || word = "infinity" then some (nearest negative (twoTo 1024) 1)
  else if word = "nan" then some (Float.ofBits (UInt64.ofNat 0x7FF8000000000000))
  else
    let whole := body.takeWhile Char.isDigit
    let rest := body.dropWhile Char.isDigit
    let (fraction, tail) := match rest with
      | '.' :: after => (after.takeWhile Char.isDigit, after.dropWhile Char.isDigit)
      | _ => ([], rest)
    if whole.isEmpty && fraction.isEmpty then none
    else
      let exponent ← readExponent? tail
      some (ofDecimal negative (digitsValue (digitsValue 0 whole) fraction)
        (exponent - fraction.length))

end Number

end StackingPlanner
