/-!
# Blank characters

The characters that Unicode counts as white space, together with the four
information separators U+001C to U+001F.
-/

namespace StackingPlanner

namespace Text

def isBlank (c : Char) : Bool :=
  let n := c.toNat
  (0x09 ≤ n && n ≤ 0x0D) || (0x1C ≤ n && n ≤ 0x20) || n == 0x85 || n == 0xA0 || n == 0x1680 ||
    (0x2000 ≤ n && n ≤ 0x200A) || n == 0x2028 || n == 0x2029 || n == 0x202F || n == 0x205F ||
    n == 0x3000

def stripEnd (isOuter : Char → Bool) (cs : List Char) : List Char :=
  (cs.reverse.dropWhile isOuter).reverse

def strip (isOuter : Char → Bool) (cs : List Char) : List Char :=
  stripEnd isOuter (cs.dropWhile isOuter)

def dropBlanks (cs : List Char) : List Char := cs.dropWhile isBlank

def dropTrailingBlanks (cs : List Char) : List Char := stripEnd isBlank cs

def trim (cs : List Char) : List Char := strip isBlank cs

end Text

end StackingPlanner
