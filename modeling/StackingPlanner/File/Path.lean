import StackingPlanner.Misuse

/-!
# Paths

A path is a sequence of names, from the root or from the working directory.
Empty names and single dots do not count.
-/

namespace StackingPlanner

/-- A path to a file. -/
structure Path where
  /-- What the path begins with: nothing, or the slashes of a root. -/
  root : String
  names : List String
  deriving DecidableEq, Repr

namespace Path

def splitSlashes (cs : List Char) : List (List Char) :=
  match cs with
  | [] => [[]]
  | c :: rest =>
      if c = '/' then [] :: splitSlashes rest
      else
        match splitSlashes rest with
        | [] => [[c]]
        | first :: others => (c :: first) :: others

/-- The root of a text: exactly two slashes are kept, any other number of them is one. -/
def rootOf (cs : List Char) : String :=
  match (cs.takeWhile (· = '/')).length with
  | 0 => ""
  | 2 => "//"
  | _ => "/"

def ofText (s : String) : Path where
  root := rootOf s.toList
  names := ((splitSlashes s.toList).map String.ofList).filter (fun name => name ≠ "" && name ≠ ".")

/-- A path as text; the working directory is a dot. -/
def text (p : Path) : String :=
  let body := p.root ++ String.intercalate "/" p.names
  if body = "" then "." else body

def name (p : Path) : String := p.names.getLast?.getD ""

def parent (p : Path) : Path := { p with names := p.names.dropLast }

/--
The last name without its extension.  A dot at the start or at the end of a
name begins no extension.
-/
def stem (p : Path) : String :=
  let reversed := p.name.toList.reverse
  let extension := reversed.takeWhile (· ≠ '.')
  let before := (reversed.dropWhile (· ≠ '.')).drop 1
  if extension.isEmpty || before.isEmpty then p.name else String.ofList before.reverse

/-- Check that a path can be looked up: it can be encoded and has no null character. -/
def check (p : Path) : Except Misuse Unit :=
  match Text.firstSurrogates? Text.isByteSurrogate p.text.toList with
  | some (position, count, code) => .error (.unencodable position count code)
  | none => if p.text.toList.contains '\x00' then .error .nullInPath else .ok ()

def mostNameBytes : Nat := 255

def mostBytes : Nat := 4095

def isLongName (name : String) : Bool := mostNameBytes < Text.byteCount name.toList

def isLong (p : Path) : Bool := mostBytes < Text.byteCount p.text.toList

end Path

end StackingPlanner
