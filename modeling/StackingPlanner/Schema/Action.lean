import StackingPlanner.Fluent.Basic
import StackingPlanner.Schema.Category

/-!
# Actions

Four operators move objects: an object is picked up from a fixed support or
unstacked from a movable one, and put down or stacked again.  An action is an
operator applied to an object and a support, with the literals that it
requires and those that it brings about.
-/

namespace StackingPlanner

/-- An operator applied to objects, with its preconditions and effects. -/
structure Action where
  operator : String
  args : List String
  preconditions : OrderedSet Literal
  effects : OrderedSet Literal
  deriving DecidableEq

namespace Action

def name (a : Action) : String := a.operator ++ "(" ++ String.intercalate "," a.args ++ ")"

def shown (a : Action) : String := "ActionInstance(" ++ Text.quoted a.name ++ ")"

def literalsValue (literals : OrderedSet Literal) : Value :=
  Value.texts (literals.toList.map Literal.text)

def toValue (a : Action) : Value :=
  .object
    [("name", .text a.name), ("repr", .text a.shown), ("operator", .text a.operator),
      ("args", Value.texts a.args), ("pre", literalsValue a.preconditions),
      ("eff", literalsValue a.effects)]

end Action

/-- What occurs at a step: one action, or nothing. -/
abbrev Choice := Option Action

/-- The ways to move an object. -/
inductive Operator where
  | pickUp
  | putDown
  | stack
  | unstack
  deriving DecidableEq, Repr

namespace Operator

def all : List Operator := [pickUp, putDown, stack, unstack]

def name : Operator → String
  | pickUp => "pick_up"
  | putDown => "put_down"
  | stack => "stack"
  | unstack => "unstack"

def supportMovable : Operator → Bool
  | pickUp => false
  | putDown => false
  | stack => true
  | unstack => true

def places : Operator → Bool
  | pickUp => false
  | putDown => true
  | stack => true
  | unstack => false

/-- A list with one literal if a category keeps track of being clear, and none otherwise. -/
def clearLiteral (m : Member) (positive : Bool) : List Literal :=
  if m.category.tracksClear then [⟨.clear m.name, positive⟩] else []

/-- The literals that must hold for an object to be taken from, or placed on, a support. -/
def preconditions (op : Operator) (x y : Member) : List Literal :=
  if op.places then .holds (.holding x.name) :: clearLiteral y true
  else .holds (.on x.name y.name) :: .holds .handEmpty :: clearLiteral x true

def effects (op : Operator) (x y : Member) : List Literal :=
  if op.places then
    [.holds (.on x.name y.name), .fails (.holding x.name), .holds .handEmpty] ++
      clearLiteral y false ++ clearLiteral x true
  else
    [.holds (.holding x.name), .fails (.on x.name y.name), .fails .handEmpty] ++
      clearLiteral x false ++ clearLiteral y true

def ground (op : Operator) (x y : Member) : Action where
  operator := op.name
  args := [x.name, y.name]
  preconditions := OrderedSet.ofList (op.preconditions x y)
  effects := OrderedSet.ofList (op.effects x y)

end Operator

end StackingPlanner
