import StackingPlanner.Fluent.Basic
import StackingPlanner.Text.Blank

/-!
# The grammar of literals

A literal is written as an optional sign, a name and optional arguments in
parentheses, with blanks allowed between any two of these and around each
argument.  The sign is `-`, `~` or the word `not` before a blank and a name;
names are ASCII identifiers.
-/

namespace StackingPlanner

namespace Literal

/-- Why a text is no literal. -/
inductive Misspelling where
  /-- The text as a whole has not the form of a literal. -/
  | form
  /-- An argument is not a name. -/
  | arguments
  deriving DecidableEq, Repr

def startsName (c : Char) : Bool := c.isAlpha || c = '_'

def continuesName (c : Char) : Bool := c.isAlphanum || c = '_'

def isName : List Char → Bool
  | [] => false
  | c :: rest => startsName c && rest.all continuesName

/-- Split off the longest name at the start of a text. -/
def readName? : List Char → Option (List Char × List Char)
  | [] => none
  | c :: rest =>
      if startsName c then some (c :: rest.takeWhile continuesName, rest.dropWhile continuesName)
      else none

/-- Split off the sign at the start of a text; the first part tells whether there was none. -/
def readSign : List Char → Bool × List Char
  | '-' :: rest => (false, rest)
  | '~' :: rest => (false, rest)
  | 'n' :: 'o' :: 't' :: c :: rest =>
      if Text.isBlank c && (Text.dropBlanks rest).head?.any startsName then
        (false, Text.dropBlanks rest)
      else (true, 'n' :: 'o' :: 't' :: c :: rest)
  | cs => (true, cs)

def splitCommas : List Char → List (List Char)
  | [] => [[]]
  | c :: rest =>
      if c = ',' then [] :: splitCommas rest
      else
        match splitCommas rest with
        | [] => [[c]]
        | part :: parts => (c :: part) :: parts

def readArguments (inner : List Char) : Except Misspelling (List String) :=
  if (Text.trim inner).isEmpty then .ok []
  else
    let arguments := (splitCommas inner).map Text.trim
    if arguments.all isName then .ok (arguments.map String.ofList) else .error .arguments

/-- The arguments that may follow a name, up to the end of the text. -/
def readTail (cs : List Char) : Except Misspelling (List String) :=
  match Text.dropBlanks cs with
  | [] => .ok []
  | '(' :: rest =>
      let inner := rest.takeWhile (fun c => c ≠ '(' && c ≠ ')')
      match rest.dropWhile (fun c => c ≠ '(' && c ≠ ')') with
      | ')' :: after =>
          if (Text.dropBlanks after).isEmpty then readArguments inner else .error .form
      | _ => .error .form
  | _ => .error .form

def parse (text : String) : Except Misspelling Literal :=
  let (positive, body) := readSign (Text.dropBlanks text.toList)
  match readName? (Text.dropBlanks body) with
  | none => .error .form
  | some (name, tail) =>
      match readTail tail with
      | .ok args => .ok ⟨⟨String.ofList name, args⟩, positive⟩
      | .error fault => .error fault

end Literal

end StackingPlanner
