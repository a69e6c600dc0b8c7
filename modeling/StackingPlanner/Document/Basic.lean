import StackingPlanner.Number.Basic
import StackingPlanner.Text.Quoted

/-!
# Documents

A document value is a null, a truth value, a number, a text, a list of values
or an object.  An object keeps its entries in the order in which their keys
first came.
-/

namespace StackingPlanner

/-- A value of a structured document. -/
inductive Value where
  | null
  | bool (b : Bool)
  | number (n : Number)
  | text (s : String)
  | list (items : List Value)
  | object (entries : List (String × Value))
  deriving Inhabited

abbrev Entries := List (String × Value)

namespace Entries

def get? (entries : Entries) (key : String) : Option Value := entries.lookup key

/-- Set the value under a key: in place if the key is there, at the end if it is new. -/
def set (key : String) (value : Value) : Entries → Entries
  | [] => [(key, value)]
  | entry :: rest =>
      if entry.1 = key then (key, value) :: rest else entry :: set key value rest

def setAll (entries : Entries) (updates : List (String × Value)) : Entries :=
  updates.foldl (fun all update => set update.1 update.2 all) entries

end Entries

namespace Value

def whole (n : Int) : Value := .number (.whole n)

def real (x : Float) : Value := .number (.real x)

def texts (l : List String) : Value := .list (l.map .text)

def orNull {α : Type} (f : α → Value) (a : Option α) : Value :=
  match a with
  | some a => f a
  | none => .null

inductive Kind where
  | null
  | bool
  | whole
  | real
  | text
  | list
  | object
  deriving DecidableEq, Repr

/-- The name by which messages call a kind. -/
def Kind.name : Kind → String
  | .null => "NoneType"
  | .bool => "bool"
  | .whole => "int"
  | .real => "float"
  | .text => "str"
  | .list => "list"
  | .object => "dict"

def kind : Value → Kind
  | .null => .null
  | .bool _ => .bool
  | .number (.whole _) => .whole
  | .number (.real _) => .real
  | .text _ => .text
  | .list _ => .list
  | .object _ => .object

mutual

/-- Whether two values are the same, floating-point numbers by their bits. -/
def same : Value → Value → Bool
  | .null, .null => true
  | .bool b, .bool c => b == c
  | .number n, .number m => n == m
  | .text s, .text t => s == t
  | .list l, .list m => sameItems l m
  | .object l, .object m => sameEntries l m
  | _, _ => false

def sameItems : List Value → List Value → Bool
  | [], [] => true
  | a :: l, b :: m => same a b && sameItems l m
  | _, _ => false

def sameEntries : List (String × Value) → List (String × Value) → Bool
  | [], [] => true
  | (j, a) :: l, (k, b) :: m => j == k && same a b && sameEntries l m
  | _, _ => false

end

instance : BEq Value := ⟨same⟩

mutual

/-- A value as it appears inside a message. -/
def display : Value → String
  | .null => "None"
  | .bool b => if b then "True" else "False"
  | .number n => n.text
  | .text s => Text.quoted s
  | .list items => "[" ++ String.intercalate ", " (displayItems items) ++ "]"
  | .object entries => "\x7b" ++ String.intercalate ", " (displayEntries entries) ++ "\x7d"

def displayItems : List Value → List String
  | [] => []
  | item :: rest => display item :: displayItems rest

def displayEntries : List (String × Value) → List String
  | [] => []
  | (key, value) :: rest => (Text.quoted key ++ ": " ++ display value) :: displayEntries rest

end

/-- A value at the top of a message: a text stands bare, all else as inside. -/
def plain : Value → String
  | .text s => s
  | value => value.display

/-- The most containers within each other that are read from a text or shown in one. -/
def mostNested : Nat := 985

/-- What is in the way of showing a value. -/
inductive Excess where
  | longNumber
  | tooDeep
  deriving DecidableEq, Repr

mutual

/-- What first gets in the way of showing a value, with room for so many containers in each other. -/
def excess? (room : Nat) : Value → Option Excess
  | .number (.whole n) => if Number.Short n then none else some .longNumber
  | .list items => if room = 0 then some .tooDeep else itemsExcess? (room - 1) items
  | .object entries => if room = 0 then some .tooDeep else entriesExcess? (room - 1) entries
  | _ => none

def itemsExcess? (room : Nat) : List Value → Option Excess
  | [] => none
  | item :: rest => (excess? room item).or (itemsExcess? room rest)

def entriesExcess? (room : Nat) : List (String × Value) → Option Excess
  | [] => none
  | (_, value) :: rest => (excess? room value).or (entriesExcess? room rest)

end

/-- A value that can be shown in a message. -/
def Shown (value : Value) : Prop := value.excess? mostNested = none

instance (value : Value) : Decidable value.Shown := inferInstanceAs (Decidable (_ = none))

end Value

end StackingPlanner
