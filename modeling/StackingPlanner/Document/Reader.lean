import StackingPlanner.Document.Basic
import StackingPlanner.Number.Numeral

/-!
# Reading documents

A document is read from left to right.  A failure names its cause and the
position of the character at which reading could not go on.  Besides finite
numbers the names `NaN`, `Infinity` and `-Infinity` are read, and the last
entry under a key counts.  Containers may be nested up to a fixed depth only,
and a whole number may have no more digits than a numeral.
-/

namespace StackingPlanner

/-- Why a text is no document. -/
inductive ReadCause where
  | byteOrderMark
  | value
  | key
  | colon
  | comma
  | extraData
  | unterminatedText
  | controlCharacter
  | escape
  | unicodeEscape
  deriving DecidableEq, Repr

def ReadCause.message : ReadCause → String
  | .byteOrderMark => "Unexpected UTF-8 BOM (decode using utf-8-sig)"
  | .value => "Expecting value"
  | .key => "Expecting property name enclosed in double quotes"
  | .colon => "Expecting ':' delimiter"
  | .comma => "Expecting ',' delimiter"
  | .extraData => "Extra data"
  | .unterminatedText => "Unterminated string starting at"
  | .controlCharacter => "Invalid control character at"
  | .escape => "Invalid \\escape"
  | .unicodeEscape => "Invalid \\uXXXX escape"

/-- A cause and the position at which it arose. -/
structure ReadError where
  cause : ReadCause
  position : Nat
  deriving DecidableEq, Repr

/-- Why a text is not read: it is no document, or it goes beyond a limit. -/
inductive ReadFault where
  | malformed (e : ReadError)
  /-- A whole number has too many digits. -/
  | longNumber (digits : Nat)
  /-- Lists and objects are nested too deeply. -/
  | tooDeep
  deriving DecidableEq, Repr

def lineNumber (text : List Char) (position : Nat) : Nat :=
  (text.take position).count '\n' + 1

def columnNumber (text : List Char) (position : Nat) : Nat :=
  ((text.take position).reverse.takeWhile (· ≠ '\n')).length + 1

def ReadError.message (text : List Char) (e : ReadError) : String :=
  e.cause.message ++ ": line " ++ toString (lineNumber text e.position) ++ " column " ++
    toString (columnNumber text e.position) ++ " (char " ++ toString e.position ++ ")"

namespace Reader

abbrev Result := Except ReadFault

def fail {α : Type} (cause : ReadCause) (position : Nat) : Result α :=
  .error (.malformed ⟨cause, position⟩)

/-- What is left to read, and the position where it starts. -/
structure Cursor where
  rest : List Char
  position : Nat

/-- A later cursor, with less to read. -/
abbrev Later (c : Cursor) := { d : Cursor // d.rest.length < c.rest.length }

/-- Whether a character may stand freely between the parts of a document. -/
def isSpace (c : Char) : Bool := c = ' ' || c = '\t' || c = '\n' || c = '\r'

def Cursor.advance (c : Cursor) (count : Nat) : Cursor := ⟨c.rest.drop count, c.position + count⟩

def Cursor.skipSpace (c : Cursor) : Cursor := c.advance (c.rest.takeWhile isSpace).length

theorem Cursor.skipSpace_le (c : Cursor) : c.skipSpace.rest.length ≤ c.rest.length := by
  simp [skipSpace, advance]

theorem Cursor.advance_skipSpace_le (c : Cursor) (count : Nat) :
    (c.advance count).skipSpace.rest.length ≤ c.rest.length :=
  Nat.le_trans (c.advance count).skipSpace_le (by simp [advance])

def hexValue? (c : Char) : Option Nat :=
  if c.isDigit then some (c.toNat - 48)
  else if 'a' ≤ c ∧ c ≤ 'f' then some (c.toNat - 87)
  else if 'A' ≤ c ∧ c ≤ 'F' then some (c.toNat - 55)
  else none

def unit? (a b c d : Char) : Option Nat := do
  return (((← hexValue? a) * 16 + (← hexValue? b)) * 16 + (← hexValue? c)) * 16 + (← hexValue? d)

def escaped? (c : Char) : Option Nat :=
  match c with
  | '"' => some 0x22
  | '\\' => some 0x5C
  | '/' => some 0x2F
  | 'b' => some 0x08
  | 'f' => some 0x0C
  | 'n' => some 0x0A
  | 'r' => some 0x0D
  | 't' => some 0x09
  | _ => none

/--
Read the code units of a text up to its closing quote.  The text opened at
`start`, and the characters given are those from `position` on.
-/
def readUnits (start : Nat) : List Char → Nat → Result (List Nat × Cursor)
  | [], _ => fail .unterminatedText start
  | '"' :: rest, position => .ok ([], ⟨rest, position + 1⟩)
  | ['\\'], _ => fail .unterminatedText start
  | '\\' :: 'u' :: a :: b :: c :: d :: e :: rest, position =>
      match unit? a b c d with
      | none => fail .unicodeEscape (position + 1)
      | some unit =>
          match readUnits start (e :: rest) (position + 6) with
          | .ok (units, after) => .ok (unit :: units, after)
          | .error failure => .error failure
  | '\\' :: c :: rest, position =>
      if c = 'u' then fail .unicodeEscape (position + 1)
      else
        match escaped? c with
        | none => fail .escape position
        | some unit =>
            match readUnits start rest (position + 2) with
            | .ok (units, after) => .ok (unit :: units, after)
            | .error failure => .error failure
  | c :: rest, position =>
      if c.toNat < 0x20 then fail .controlCharacter position
      else
        match readUnits start rest (position + 1) with
        | .ok (units, after) => .ok (c.toNat :: units, after)
        | .error failure => .error failure

theorem readUnits_lt {start : Nat} {cs : List Char} {position : Nat} {units : List Nat}
    {after : Cursor} (h : readUnits start cs position = .ok (units, after)) :
    after.rest.length < cs.length := by
  fun_induction readUnits start cs position generalizing units after with
  | case2 =>
      simp only [Except.ok.injEq, Prod.mk.injEq] at h
      obtain ⟨-, rfl⟩ := h
      simp
  | case5 | case9 | case12 =>
      simp_all
      omega
  | _ => simp_all [fail]

/-- Join the code units of a text: a high and a low surrogate make one character. -/
def joinUnits : List Nat → List Char
  | [] => []
  | [unit] => [Text.charOfUnit unit]
  | high :: low :: rest =>
      if 0xD800 ≤ high ∧ high < 0xDC00 ∧ 0xDC00 ≤ low ∧ low < 0xE000 then
        Char.ofNat (0x10000 + (high - 0xD800) * 0x400 + (low - 0xDC00)) :: joinUnits rest
      else Text.charOfUnit high :: joinUnits (low :: rest)

def readText (c : Cursor) : Result (String × Later c) :=
  match h : c.rest with
  | '"' :: rest =>
      match units : readUnits c.position rest (c.position + 1) with
      | .ok (codes, after) =>
          .ok (String.ofList (joinUnits codes),
            ⟨after, by have := readUnits_lt units; simp [h]; omega⟩)
      | .error failure => .error failure
  | _ => fail .key c.position

/-- The digits of a fraction, if a point and a digit come next. -/
def fractionDigits : List Char → List Char
  | '.' :: rest => rest.takeWhile Char.isDigit
  | _ => []

/-- The sign and the digits of an exponent, if one comes next. -/
def exponentPart : List Char → Option (Option Char × List Char)
  | c :: rest =>
      if c = 'e' ∨ c = 'E' then
        let sign := match rest with
          | '+' :: _ => some '+'
          | '-' :: _ => some '-'
          | _ => none
        let digits := (if sign.isSome then rest.drop 1 else rest).takeWhile Char.isDigit
        if digits.isEmpty then none else some (sign, digits)
      else none
  | [] => none

/-- The value of a whole number with a sign and digits, of which there may not be too many. -/
def wholeOf (negative : Bool) (digits : List Char) : Result Number :=
  if Number.mostDigits < digits.length then .error (.longNumber digits.length)
  else
    let value : Int := Number.digitsValue 0 digits
    .ok (.whole (if negative then -value else value))

/-- Read a number, if there is one; the count of its characters comes with it. -/
def readNumber? (cs : List Char) : Option (Result Number × Nat) :=
  let negative := cs.head? = some '-'
  let body := if negative then cs.drop 1 else cs
  let whole := if body.head? = some '0' then ['0'] else body.takeWhile Char.isDigit
  if whole.isEmpty then none
  else
    let afterWhole := body.drop whole.length
    let fraction := fractionDigits afterWhole
    let fractionLength := if fraction.isEmpty then 0 else fraction.length + 1
    let power := exponentPart (afterWhole.drop fractionLength)
    let powerLength := match power with
      | some (sign, digits) => 1 + (if sign.isSome then 1 else 0) + digits.length
      | none => 0
    let length := (if negative then 1 else 0) + whole.length + fractionLength + powerLength
    if fraction.isEmpty && power.isNone then some (wholeOf negative whole, length)
    else
      let exponent : Int := match power with
        | some (some '-', digits) => -(Number.digitsValue 0 digits : Int)
        | some (_, digits) => Number.digitsValue 0 digits
        | none => 0
      some (.ok (.real (Number.ofDecimal negative (Number.digitsValue 0 (whole ++ fraction))
        (exponent - fraction.length))), length)

def names : List (String × Value) :=
  [("null", .null), ("true", .bool true), ("false", .bool false),
    ("NaN", .real (Float.ofBits (UInt64.ofNat 0x7FF8000000000000))),
    ("Infinity", .real (Number.nearest false (Number.twoTo 1024) 1)),
    ("-Infinity", .real (Number.nearest true (Number.twoTo 1024) 1))]

/-- The named value at the start of a text, with the length of its name. -/
def readName? (cs : List Char) : Option (Value × Nat) :=
  (names.find? (fun entry => entry.1.toList.isPrefixOf cs)).map
    (fun entry => (entry.2, entry.1.length))

def readScalar (c : Cursor) : Result (Value × Later c) :=
  let found : Option (Result Value × Nat) := match readName? c.rest with
    | some (value, length) => some (.ok value, length)
    | none => (readNumber? c.rest).map (fun number => (number.1.map .number, number.2))
  match found with
  | some (.ok value, length) =>
      if h : 0 < length ∧ 0 < c.rest.length then
        .ok (value, ⟨c.advance length, by simp [Cursor.advance]; omega⟩)
      else fail .value c.position
  | some (.error fault, _) => .error fault
  | none => fail .value c.position

mutual

/-- Read the value at a cursor, with room for a number of containers within each other. -/
def readValue (room : Nat) (c : Cursor) : Result (Value × Later c) :=
  match h : c.rest with
  | '"' :: _ =>
      match readText c with
      | .ok (s, after) => .ok (.text s, after)
      | .error failure => .error failure
  | '[' :: rest =>
      let inner := Cursor.skipSpace ⟨rest, c.position + 1⟩
      have shorter : inner.rest.length < c.rest.length := by
        have := Cursor.skipSpace_le ⟨rest, c.position + 1⟩
        rw [h]
        exact Nat.lt_succ_of_le this
      if room = 0 then .error .tooDeep
      else if inner.rest.head? = some ']' then
        .ok (.list [], ⟨inner.advance 1, by simp [Cursor.advance]; omega⟩)
      else
        match readItems (room - 1) inner with
        | .ok (items, after) => .ok (.list items, ⟨after.1, Nat.lt_trans after.2 shorter⟩)
        | .error failure => .error failure
  | '\x7b' :: rest =>
      let inner := Cursor.skipSpace ⟨rest, c.position + 1⟩
      have shorter : inner.rest.length < c.rest.length := by
        have := Cursor.skipSpace_le ⟨rest, c.position + 1⟩
        rw [h]
        exact Nat.lt_succ_of_le this
      if room = 0 then .error .tooDeep
      else if inner.rest.head? = some '\x7d' then
        .ok (.object [], ⟨inner.advance 1, by simp [Cursor.advance]; omega⟩)
      else
        match readEntries (room - 1) [] inner with
        | .ok (entries, after) =>
            .ok (.object entries, ⟨after.1, Nat.lt_trans after.2 shorter⟩)
        | .error failure => .error failure
  | _ => readScalar c
termination_by (c.rest.length, 0)

def readItems (room : Nat) (c : Cursor) : Result (List Value × Later c) :=
  match readValue room c with
  | .error failure => .error failure
  | .ok (item, after) =>
      let next := after.1.skipSpace
      have shorter : next.rest.length < c.rest.length :=
        Nat.lt_of_le_of_lt after.1.skipSpace_le after.2
      match h : next.rest with
      | ']' :: _ => .ok ([item], ⟨next.advance 1, by simp [Cursor.advance]; omega⟩)
      | ',' :: _ =>
          let rest := (next.advance 1).skipSpace
          have evenShorter : rest.rest.length < c.rest.length :=
            Nat.lt_of_le_of_lt (next.advance_skipSpace_le 1) shorter
          match readItems room rest with
          | .ok (items, last) => .ok (item :: items, ⟨last.1, Nat.lt_trans last.2 evenShorter⟩)
          | .error failure => .error failure
      | _ => fail .comma next.position
termination_by (c.rest.length, 1)

/-- Read the entries of an object up to its closing brace, on top of those before. -/
def readEntries (room : Nat) (before : Entries) (c : Cursor) : Result (Entries × Later c) :=
  match readText c with
  | .error failure => .error failure
  | .ok (key, afterKey) =>
      let separator := afterKey.1.skipSpace
      have separatorShorter : separator.rest.length < c.rest.length :=
        Nat.lt_of_le_of_lt afterKey.1.skipSpace_le afterKey.2
      match separator.rest with
      | ':' :: _ =>
          let start := (separator.advance 1).skipSpace
          have startShorter : start.rest.length < c.rest.length :=
            Nat.lt_of_le_of_lt (separator.advance_skipSpace_le 1) separatorShorter
          match readValue room start with
          | .error failure => .error failure
          | .ok (value, after) =>
              let next := after.1.skipSpace
              have shorter : next.rest.length < c.rest.length :=
                Nat.lt_trans (Nat.lt_of_le_of_lt after.1.skipSpace_le after.2) startShorter
              let entries := Entries.set key value before
              match next.rest with
              | '\x7d' :: _ =>
                  .ok (entries, ⟨next.advance 1, by simp [Cursor.advance]; omega⟩)
              | ',' :: _ =>
                  let rest := (next.advance 1).skipSpace
                  have evenShorter : rest.rest.length < c.rest.length :=
                    Nat.lt_of_le_of_lt (next.advance_skipSpace_le 1) shorter
                  match readEntries room entries rest with
                  | .ok (all, last) => .ok (all, ⟨last.1, Nat.lt_trans last.2 evenShorter⟩)
                  | .error failure => .error failure
              | _ => fail .comma next.position
      | _ => fail .colon separator.position
termination_by (c.rest.length, 1)

end

end Reader

def Value.read (text : List Char) : Except ReadFault Value :=
  if text.head? = some (Char.ofNat 0xFEFF) then Reader.fail .byteOrderMark 0
  else
    match Reader.readValue mostNested (Reader.Cursor.skipSpace ⟨text, 0⟩) with
    | .error failure => .error failure
    | .ok (value, after) =>
        let last := after.1.skipSpace
        if last.rest.isEmpty then .ok value else Reader.fail .extraData last.position

end StackingPlanner
