import StackingPlanner.Document.Basic
import StackingPlanner.OrderedSet

/-!
# Keys

Values are told apart by their keys.  Numbers of either kind and truth values
have one key if they have the same value, and objects have one key if they
hold the same entries in any order.
-/

namespace StackingPlanner

/-- What a value is found by. -/
inductive Key where
  | text (s : String)
  /-- The key of a value that is no text: how the value would appear in a message. -/
  | other (shown : String)
  deriving DecidableEq, Hashable, Repr, Inhabited

namespace Value

/-- A number as a whole number if it has the value of one. -/
def plainNumber (n : Number) : Value :=
  match n.toWhole? with
  | some whole => .whole whole
  | none => .number n

mutual

/-- A value with its numbers in one form and the entries of its objects in order. -/
def normal : Value → Value
  | .bool b => .whole (if b then 1 else 0)
  | .number n => plainNumber n
  | .list items => .list (normalItems items)
  | .object entries =>
      .object ((normalEntries entries).mergeSort (fun a b => !decide (b.1 < a.1)))
  | value => value

def normalItems : List Value → List Value
  | [] => []
  | item :: rest => normal item :: normalItems rest

def normalEntries : List (String × Value) → List (String × Value)
  | [] => []
  | (key, value) :: rest => (key, normal value) :: normalEntries rest

end

def key : Value → Key
  | .text s => .text s
  | value => .other value.normal.display

/-- Whether a value equals itself; only a floating-point number that is no number does not. -/
def equalsItself : Value → Bool
  | .number n => n.equals n
  | _ => true

/-- The key of a value that may stand in a set; lists and objects may not. -/
def memberKey? : Value → Option Key
  | .list _ => none
  | .object _ => none
  | value => some value.key

end Value

end StackingPlanner
