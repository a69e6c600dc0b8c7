import StackingPlanner.Text.Printable
import StackingPlanner.Text.Surrogate

/-!
# Quoted text

A quoted text stands between single quotes, or between double quotes if it
holds a single quote and no double one.  The quote in use and the backslash
are escaped by a backslash; an unprintable character is written by its code.
-/

namespace StackingPlanner

namespace Text

/-- A number in lower-case hexadecimal, padded with zeros to a width. -/
def hex (width n : Nat) : String :=
  let digits := Nat.toDigits 16 n
  String.ofList (List.replicate (width - digits.length) '0' ++ digits)

def quoteMark (text : String) : Char :=
  if text.toList.contains '\'' && !text.toList.contains '"' then '"' else '\''

def quotedChar (mark c : Char) : String :=
  if c = mark || c = '\\' then String.ofList ['\\', c]
  else if c = '\n' then "\\n"
  else if c = '\r' then "\\r"
  else if c = '\t' then "\\t"
  else if isPrintable c then String.singleton c
  else if c.toNat < 0x100 then "\\x" ++ hex 2 c.toNat
  else if code c < 0x10000 then "\\u" ++ hex 4 (code c)
  else "\\U" ++ hex 8 c.toNat

def quoted (text : String) : String :=
  let mark := quoteMark text
  String.singleton mark ++ String.join (text.toList.map (quotedChar mark)) ++
    String.singleton mark

def quotedList (texts : List String) : String :=
  "[" ++ String.intercalate ", " (texts.map quoted) ++ "]"

end Text

end StackingPlanner
