import StackingPlanner.Document.Conversion

/-!
# Objects and their categories

Every object belongs to a category.  The category says how many objects may
rest directly on its members and of which categories these may be, and whether
its members can be moved.  What is declared of a category need not make sense.
-/

namespace StackingPlanner

/-- How many objects may rest directly on another. -/
inductive Capacity where
  | zero
  | one
  | unbounded
  deriving DecidableEq, Repr

/-- The capacity that a value declares, if it is one of those that are supported. -/
def Capacity.ofValue? : Value → Option Capacity
  | .null => some .unbounded
  | value =>
      match value.number? with
      | none => none
      | some n =>
          if n.equals (.whole 0) then some .zero
          else if n.equals (.whole 1) then some .one
          else none

/-- A category as it is declared. -/
structure CategoryDeclaration where
  name : String
  /-- The capacity as it was given, which need not be a capacity at all. -/
  capacity : Value := .whole 1
  allowed : OrderedSet String := OrderedSet.empty
  /-- Whether the members can be moved: whether this counts as true. -/
  movable : Value := .bool true

def CategoryDeclaration.same (c d : CategoryDeclaration) : Bool :=
  c.name = d.name && c.capacity == d.capacity && decide (c.allowed = d.allowed) &&
    c.movable == d.movable

instance : BEq CategoryDeclaration := ⟨CategoryDeclaration.same⟩

structure Category where
  name : String
  capacity : Capacity := .one
  allowed : OrderedSet String := OrderedSet.empty
  movable : Bool := true
  /--
  Whether operators place objects on the members and take them away: it was
  declared as a truth value whether the members can be moved.
  -/
  serves : Bool := true
  deriving DecidableEq

namespace Category

def receives (c : Category) : Bool := c.capacity ≠ .zero && !c.allowed.isEmpty

/-- Whether the members carry at most one object, so that it matters whether they are clear. -/
def tracksClear (c : Category) : Bool := c.capacity = .one

end Category

/-- An object with the name of its category, as declared. -/
structure DomainObject where
  name : String
  category : String
  deriving DecidableEq, Repr

namespace DomainObject

def words (o : DomainObject) : List String := [o.name, o.category]

/-- Objects are ordered by name, then by category. -/
instance : LT DomainObject := ⟨fun o p => o.words < p.words⟩

instance : DecidableLT DomainObject := fun o p => inferInstanceAs (Decidable (o.words < p.words))

end DomainObject

structure Member where
  name : String
  category : Category
  deriving DecidableEq

def Member.mayRestOn (occupant support : Member) : Bool :=
  occupant.name ≠ support.name && occupant.category.movable && support.category.receives &&
    decide (occupant.category.name ∈ support.category.allowed)

end StackingPlanner
