import StackingPlanner.Text.Quoted

/-!
# Reading UTF-8

Bytes are read as characters in the shortest form only and without
surrogates.  A failure names the bytes of the first sequence that cannot be
completed.
-/

namespace StackingPlanner

namespace Text

inductive Utf8Cause where
  | startByte
  | continuationByte
  | endOfData
  deriving DecidableEq, Repr

def Utf8Cause.message : Utf8Cause → String
  | .startByte => "invalid start byte"
  | .continuationByte => "invalid continuation byte"
  | .endOfData => "unexpected end of data"

/-- A failure to read bytes: its cause, its first byte, the position of that and their count. -/
structure Utf8Error where
  cause : Utf8Cause
  byte : Nat
  position : Nat
  count : Nat
  deriving DecidableEq, Repr

def Utf8Error.message (e : Utf8Error) : String :=
  "'utf-8' codec can't decode " ++
    (if e.count = 1 then
      "byte 0x" ++ hex 2 e.byte ++ " in position " ++ toString e.position
    else
      "bytes in position " ++ toString e.position ++ "-" ++
        toString (e.position + e.count - 1)) ++
    ": " ++ e.cause.message

def continues (b : Nat) : Bool := 0x80 ≤ b && b < 0xC0

/-- Whether a second byte may follow a first one of at least `0xE0`. -/
def mayFollow (first second : Nat) : Bool :=
  continues second &&
    !(first = 0xE0 && second < 0xA0) && !(first = 0xED && 0xA0 ≤ second) &&
    !(first = 0xF0 && second < 0x90) && !(first = 0xF4 && 0x90 ≤ second)

def prepend (code : Nat) : Except Utf8Error (List Char) → Except Utf8Error (List Char)
  | .ok cs => .ok (Char.ofNat code :: cs)
  | .error e => .error e

def decodeFrom : Nat → List Nat → Except Utf8Error (List Char)
  | _, [] => .ok []
  | position, a :: rest =>
      if a < 0x80 then prepend a (decodeFrom (position + 1) rest)
      else if a < 0xC2 ∨ 0xF5 ≤ a then .error ⟨.startByte, a, position, 1⟩
      else
        match rest with
        | [] => .error ⟨.endOfData, a, position, 1⟩
        | b :: rest =>
            if a < 0xE0 then
              if continues b then
                prepend ((a - 0xC0) * 0x40 + (b - 0x80)) (decodeFrom (position + 2) rest)
              else .error ⟨.continuationByte, a, position, 1⟩
            else if !mayFollow a b then .error ⟨.continuationByte, a, position, 1⟩
            else
              match rest with
              | [] => .error ⟨.endOfData, a, position, 2⟩
              | c :: rest =>
                  if !continues c then .error ⟨.continuationByte, a, position, 2⟩
                  else if a < 0xF0 then
                    prepend (((a - 0xE0) * 0x40 + (b - 0x80)) * 0x40 + (c - 0x80))
                      (decodeFrom (position + 3) rest)
                  else
                    match rest with
                    | [] => .error ⟨.endOfData, a, position, 3⟩
                    | d :: rest =>
                        if !continues d then .error ⟨.continuationByte, a, position, 3⟩
                        else
                          prepend
                            ((((a - 0xF0) * 0x40 + (b - 0x80)) * 0x40 + (c - 0x80)) * 0x40 +
                              (d - 0x80))
                            (decodeFrom (position + 4) rest)

def decodeUtf8 (bytes : List Nat) : Except Utf8Error (List Char) := decodeFrom 0 bytes

end Text

end StackingPlanner
