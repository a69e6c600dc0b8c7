import StackingPlanner.Document.Basic

/-!
# Writing documents

A document is written with one item or entry a line and a fixed indent for
each level.  Characters outside ASCII are either kept or escaped by their
UTF-16 code units.
-/

namespace StackingPlanner

namespace Value

def unitEscape (n : Nat) : String := "\\u" ++ Text.hex 4 n

/-- A character as an escape of one or two UTF-16 code units. -/
def charEscape (c : Char) : String :=
  let n := Text.code c
  if n < 0x10000 then unitEscape n
  else unitEscape (0xD800 + (n - 0x10000) / 0x400) ++ unitEscape (0xDC00 + (n - 0x10000) % 0x400)

def writtenChar (keepsUnicode : Bool) (c : Char) : String :=
  if c = '"' then "\\\""
  else if c = '\\' then "\\\\"
  else if c = '\n' then "\\n"
  else if c = '\r' then "\\r"
  else if c = '\t' then "\\t"
  else if c.toNat = 0x0C then "\\f"
  else if c.toNat = 0x08 then "\\b"
  else if c.toNat < 0x20 then charEscape c
  else if c.toNat < 0x7F || keepsUnicode then String.singleton c
  else charEscape c

def writtenText (keepsUnicode : Bool) (s : String) : String :=
  "\"" ++ String.join (s.toList.map (writtenChar keepsUnicode)) ++ "\""

/-- A written number; the undefined and the infinite ones have names. -/
def writtenNumber : Number → String
  | .whole n => toString n
  | .real x =>
      match Number.meaning x with
      | .undefined => "NaN"
      | .infinite negative => Number.signed negative "Infinity"
      | .finite _ => Number.floatText x

def lineStart (level : Nat) : String := "\n" ++ String.ofList (List.replicate (2 * level) ' ')

/-- Lines between brackets, or just the brackets if there is no line. -/
def block (opening closing : String) (level : Nat) (lines : List String) : String :=
  if lines.isEmpty then opening ++ closing
  else
    opening ++ lineStart (level + 1) ++
      String.intercalate ("," ++ lineStart (level + 1)) lines ++ lineStart level ++ closing

mutual

/-- Write a value whose lines start at a level. -/
def writeAt (keepsUnicode : Bool) (level : Nat) : Value → String
  | .null => "null"
  | .bool b => if b then "true" else "false"
  | .number n => writtenNumber n
  | .text s => writtenText keepsUnicode s
  | .list items => block "[" "]" level (writeItems keepsUnicode (level + 1) items)
  | .object entries =>
      block "\x7b" "\x7d" level (writeEntries keepsUnicode (level + 1) entries)

def writeItems (keepsUnicode : Bool) (level : Nat) : List Value → List String
  | [] => []
  | item :: rest => writeAt keepsUnicode level item :: writeItems keepsUnicode level rest

def writeEntries (keepsUnicode : Bool) (level : Nat) : List (String × Value) → List String
  | [] => []
  | (key, value) :: rest =>
      (writtenText keepsUnicode key ++ ": " ++ writeAt keepsUnicode level value) ::
        writeEntries keepsUnicode level rest

end

def write (value : Value) : String := value.writeAt false 0

def writeUnicode (value : Value) : String := value.writeAt true 0

end Value

end StackingPlanner
