/-!
# Lone surrogates

Characters outside the basic plane are written in UTF-16 as pairs of code
units, the surrogates.  A text may hold one of these without its partner, for
which there is no character; a character of an unassigned plane stands in for
it.  Where texts are put in order, stand-ins come after all characters of the
assigned planes, while the surrogates themselves would come before those from
U+E000 on; names with lone surrogates are the only ones whose order differs.
-/

namespace StackingPlanner

namespace Text

def isSurrogate (unit : Nat) : Bool := 0xD800 ≤ unit && unit < 0xE000

/--
How far a stand-in lies above the surrogate that it stands for.  It keeps the
order of surrogates among each other, but puts them above all other characters.
-/
def standInOffset : Nat := 0xD0000

def charOfUnit (unit : Nat) : Char :=
  Char.ofNat (if isSurrogate unit then unit + standInOffset else unit)

def surrogate? (c : Char) : Option Nat :=
  let unit := c.toNat - standInOffset
  if isSurrogate unit then some unit else none

/-- The code of a character, where a stand-in has the code of its surrogate. -/
def code (c : Char) : Nat := (surrogate? c).getD c.toNat

def isByteSurrogate (unit : Nat) : Bool := 0xDC80 ≤ unit && unit < 0xDD00

/--
The first lone surrogate that is not allowed in a text: its position, the
number of surrogates in a row from there on and its code.
-/
def firstSurrogates? (isAllowed : Nat → Bool) (cs : List Char) : Option (Nat × Nat × Nat) :=
  match cs.findIdx? (fun c => (surrogate? c).any (fun unit => !isAllowed unit)) with
  | none => none
  | some position =>
      let run := (cs.drop position).takeWhile (fun c => (surrogate? c).isSome)
      some (position, run.length, (run.head?.map code).getD 0)

/-- The number of bytes of a text in which surrogates may stand for single bytes. -/
def byteCount (cs : List Char) : Nat :=
  (cs.map (fun c => if (surrogate? c).isSome then 1 else c.utf8Size)).foldl (· + ·) 0

end Text

end StackingPlanner
