/-!
# Lines

A file may end its lines by a line feed, a carriage return or both; what was
read of it has line feeds only.  Other characters break a line as well when a
text is divided into lines.
-/

namespace StackingPlanner

namespace Text

def normalLines : List Char → List Char
  | [] => []
  | '\r' :: '\n' :: rest => '\n' :: normalLines rest
  | '\r' :: rest => '\n' :: normalLines rest
  | c :: rest => c :: normalLines rest

def isLineBreak (c : Char) : Bool :=
  let n := c.toNat
  (0x0A ≤ n && n ≤ 0x0D) || (0x1C ≤ n && n ≤ 0x1E) || n == 0x85 || n == 0x2028 || n == 0x2029

/-- The lines of a text, without the characters that break them. -/
def lines : List Char → List (List Char)
  | [] => []
  | c :: rest =>
      if isLineBreak c then [] :: lines rest
      else
        match lines rest with
        | [] => [[c]]
        | first :: others => (c :: first) :: others

end Text

end StackingPlanner
