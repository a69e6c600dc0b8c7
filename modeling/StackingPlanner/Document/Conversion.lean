import StackingPlanner.Document.Key

/-!
# Converting values

Where a value of another kind than expected is given, it may still make sense:
truth values count as numbers, texts and objects can be gone through item by
item, and a list of pairs can be taken as an object.
-/

namespace StackingPlanner

namespace Value

/-- Whether a value counts as true: it is not null, false, zero or empty. -/
def counts : Value → Bool
  | .null => false
  | .bool b => b
  | .number n => !n.equals (.whole 0)
  | .text s => !s.isEmpty
  | .list items => !items.isEmpty
  | .object entries => !entries.isEmpty

/-- The number that a value stands for; a truth value is one or zero. -/
def number? : Value → Option Number
  | .number n => some n
  | .bool b => some (.whole (if b then 1 else 0))
  | _ => none

/-- The truth value that a value equals: one and zero equal true and false. -/
def truth? (value : Value) : Option Bool :=
  match value.number? with
  | none => none
  | some n =>
      if n.equals (.whole 0) then some false
      else if n.equals (.whole 1) then some true
      else none

/-- The whole number that a value is; a truth value is one or zero. -/
def whole? : Value → Option Int
  | .number (.whole n) => some n
  | .bool b => some (if b then 1 else 0)
  | _ => none

/-- The items of a list, the characters of a text or the keys of an object. -/
def items? : Value → Option (List Value)
  | .list items => some items
  | .text s => some (s.toList.map (fun c => .text (String.singleton c)))
  | .object entries => some (entries.map (fun entry => .text entry.1))
  | _ => none

/-- The value one above a number; null has none and stays null. -/
def next? : Value → Option Value
  | .null => some .null
  | value => value.number?.map (fun n => .number (n.add (.whole 1)))

/-- The number that is reached from a number by adding one; any other value stays as it is. -/
def countOn (value : Value) (count : Nat) : Value :=
  if count = 0 then value
  else
    match value.number? with
    | some n => .number (n.countOn count)
    | none => value

end Value

/-- Why a value cannot be taken as an object. -/
inductive PairFault where
  /-- An item is no pair: it has another length. -/
  | length (position length : Nat)
  /-- The value or one of its items cannot be gone through, or a key may not stand in a set. -/
  | kind
  deriving DecidableEq, Repr

/-- Pairs of a key and a value, each key once. -/
abbrev Pairs := List (Value × Value)

namespace Pairs

def set (key value : Value) : Pairs → Pairs
  | [] => [(key, value)]
  | pair :: rest =>
      if pair.1.key = key.key then (pair.1, value) :: rest else pair :: set key value rest

/-- Take items as pairs, on top of the pairs before them. -/
def ofItems (before : Pairs) (position : Nat) : List Value → Except PairFault Pairs
  | [] => .ok before
  | item :: rest =>
      match item.items? with
      | none => .error .kind
      | some [key, value] =>
          match key.memberKey? with
          | some _ => ofItems (before.set key value) (position + 1) rest
          | none => .error .kind
      | some parts => .error (.length position parts.length)

/-- The pairs of a value: the entries of an object, or the items of a list. -/
def ofValue : Value → Except PairFault Pairs
  | .object entries => .ok (entries.map (fun entry => (.text entry.1, entry.2)))
  | value =>
      match value.items? with
      | some items => ofItems [] 0 items
      | none => .error .kind

/-- A key as the key of an object. -/
def keyText : Value → String
  | .null => "null"
  | .bool b => if b then "true" else "false"
  | value => value.plain

def toEntries (pairs : Pairs) : Entries := pairs.map (fun pair => (keyText pair.1, pair.2))

def named? (pairs : Pairs) : Option Entries :=
  pairs.mapM (fun pair =>
    match pair.1 with
    | .text name => some (name, pair.2)
    | _ => none)

end Pairs

end StackingPlanner
