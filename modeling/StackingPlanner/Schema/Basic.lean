import StackingPlanner.Schema.Action
import StackingPlanner.State

/-!
# Schemas

A schema is an accepted declaration of categories and objects, together with
the fluents and the actions that follow from it.
-/

namespace StackingPlanner

/-- An accepted declaration with its fluents and actions. -/
structure Schema where
  /-- The categories, in the order of their declaration. -/
  categories : List Category
  /-- The objects with their categories, in the order of their names. -/
  members : List Member
  /-- The fluents that the categories allow. -/
  scope : OrderedSet Fluent
  /-- The actions, in the order of operator and arguments. -/
  actions : List Action

namespace Schema

/-- Accept each declared category in turn, after the ones accepted before it. -/
def acceptCategories : List Category → List CategoryDeclaration → Except Failure (List Category)
  | before, [] => .ok before
  | before, c :: rest =>
      if before.any (·.name = c.name) then .error (.categoryTwice c.name)
      else
        match Capacity.ofValue? c.capacity with
        | none => .error (.badCapacity c.name c.capacity)
        | some capacity =>
            let movable := c.movable.counts
            if movable && capacity = .unbounded && !c.allowed.isEmpty then
              .error (.movableTable c.name)
            else
              let serves := c.movable.truth?.isSome
              acceptCategories (before ++ [⟨c.name, capacity, c.allowed, movable, serves⟩]) rest

/-- The first category, with its first allowed occupant, that refers to no category. -/
def danglingOccupant? (categories : List Category) : Option (String × String) :=
  categories.findSome? (fun c =>
    (c.allowed.toList.find? (fun occupant => !categories.any (·.name = occupant))).map (c.name, ·))

/-- Find the categories of objects, given the objects before them. -/
def resolve (categories : List Category) :
    List Member → List DomainObject → Except Failure (List Member)
  | _, [] => .ok []
  | before, o :: rest =>
      if before.any (·.name = o.name) then .error (.objectTwice o.name)
      else
        match categories.find? (·.name = o.category) with
        | none => .error (.unknownCategory o.name o.category)
        | some c =>
            match resolve categories (before ++ [⟨o.name, c⟩]) rest with
            | .ok members => .ok (⟨o.name, c⟩ :: members)
            | .error f => .error f

def placements (members : List Member) : List (Member × Member) :=
  members.flatMap (fun x => (members.filter x.mayRestOn).map (x, ·))

def fluents (members : List Member) : OrderedSet Fluent :=
  OrderedSet.ofList
    ((members.filter (·.category.tracksClear)).map (fun m => .clear m.name) ++ [.handEmpty] ++
      (members.filter (·.category.movable)).map (fun m => .holding m.name) ++
      (placements members).map (fun p => .on p.1.name p.2.name))

/-- Whether an operator takes objects from a support, or places them on it. -/
def suits (op : Operator) (support : Member) : Bool :=
  support.category.serves && support.category.movable == op.supportMovable

def groundActions (members : List Member) : List Action :=
  Operator.all.flatMap (fun op =>
    ((placements members).filter (fun p => suits op p.2)).map (fun p => op.ground p.1 p.2))

def ofMembers (categories : List Category) (members : List Member) : Schema :=
  ⟨categories, members, fluents members, groundActions members⟩

def contradictoryAction? (actions : List Action) : Option (Action × Literal) :=
  actions.findSome? (fun a => (Literal.clash? a.effects.toList).map (a, ·))

def build (objects : List DomainObject) (declared : List CategoryDeclaration) :
    Except Failure Schema := do
  let categories ← acceptCategories [] declared
  match danglingOccupant? categories with
  | some (category, occupant) => throw (.unknownOccupant category occupant)
  | none => pure ()
  let members ← resolve categories [] (sorted objects)
  let schema := ofMembers categories members
  match contradictoryAction? schema.actions with
  | some (action, literal) => throw (.actionContradicts action.name literal)
  | none => pure schema

def member? (schema : Schema) (name : String) : Option Member :=
  schema.members.find? (·.name = name)

/-- The object with a name, which must be declared. -/
def member (schema : Schema) (name : String) : Except Failure Member :=
  match schema.member? name with
  | some m => .ok m
  | none => .error (.unknownObject name)

def canSupport (schema : Schema) (support occupant : String) : Except Failure Bool :=
  if support = occupant then .ok false
  else
    match schema.member occupant with
    | .error f => .error f
    | .ok x =>
        if !x.category.movable then .ok false
        else (schema.member support).map x.mayRestOn

def movableNames (schema : Schema) : List String :=
  (schema.members.filter (·.category.movable)).map (·.name)

def establishers (schema : Schema) (f : Fluent) : List Action :=
  schema.actions.filter (fun a => decide (Literal.holds f ∈ a.effects))

def action? (schema : Schema) (name : String) : Option Action :=
  schema.actions.find? (·.name = name)

def arity? (name : String) : Option Nat :=
  [("on", 2), ("clear", 1), ("holding", 1), ("handempty", 0)].lookup name

/-- Check that a literal speaks of declared objects and of a fluent in scope. -/
def checkLiteral (schema : Schema) (l : Literal) : Except Failure Unit :=
  match l.fluent.args.find? (fun arg => (schema.member? arg).isNone) with
  | some arg => .error (.unknownArgument l arg)
  | none =>
      if arity? l.fluent.name ≠ some l.fluent.args.length then .error (.unknownFluent l.fluent)
      else if l.fluent ∈ schema.scope then .ok ()
      else .error (.fluentRuledOut l.fluent)

def placesOrHolds (l : Literal) : Bool :=
  l.positive && (l.fluent.name = "on" || l.fluent.name = "holding")

/-- Check that some action brings about every placing or holding that a list demands. -/
def requireOperators (schema : Schema) (label : String) (literals : List Literal) :
    Except Failure Unit :=
  match literals.find?
      (fun l => placesOrHolds l && (schema.establishers l.fluent).isEmpty) with
  | some l => .error (.noOperator label l)
  | none => .ok ()

def checkLiterals (schema : Schema) (label : String) (literals : List Literal) :
    Except Failure Unit := do
  literals.forM schema.checkLiteral
  match Literal.clash? literals with
  | some l => throw (.contradiction (label ++ " literal set") l)
  | none => schema.requireOperators label literals

def goal (schema : Schema) (literals : List Literal) : Except Failure (OrderedSet Literal) := do
  schema.checkLiterals "goal" literals
  return OrderedSet.ofList literals

end Schema

end StackingPlanner
