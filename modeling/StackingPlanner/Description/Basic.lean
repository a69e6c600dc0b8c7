import StackingPlanner.Problem

/-!
# Descriptions

A description declares categories and objects and states the initial literals,
the goal literals and the horizon.  A problem is a description that was found
to make sense.
-/

namespace StackingPlanner

/-- A declaration of a planning problem. -/
structure Description where
  categories : List CategoryDeclaration
  objects : List DomainObject
  initial : List Literal := []
  goal : List Literal := []
  /-- The horizon as it was given, which need not be a horizon at all. -/
  horizon : Value
  /-- The name as it was given, which need not be a text. -/
  name : Value := .text "domain"
  metadata : Entries := []

namespace Description

def withHorizon (d : Description) (horizon : Value) : Description := { d with horizon }

def schema (d : Description) : Except Failure Schema := Schema.build d.objects d.categories

/-- The problem that a description states. -/
def problem (d : Description) : Except Failure Problem := do
  let schema ← d.schema
  let initial ← schema.initialState d.initial
  let goal ← schema.goal d.goal
  Problem.make schema initial goal d.horizon

def categoryValue (c : CategoryDeclaration) : Value :=
  .object
    [("max_occupants", c.capacity),
      ("allowed_occupants", Value.texts c.allowed.toList), ("movable", c.movable)]

/-- Declarations under their names; a later one under a name takes the place of the earlier one. -/
def byName {α : Type} (name : α → String) (value : α → Value) (declared : List α) : Value :=
  .object (Entries.setAll [] (declared.map (fun a => (name a, value a))))

def toValue (d : Description) : Value :=
  .object
    [("name", d.name),
      ("categories", byName CategoryDeclaration.name categoryValue d.categories),
      ("objects", byName DomainObject.name (fun o => .text o.category) d.objects),
      ("initial", Value.texts (d.initial.map Literal.text)),
      ("goal", Value.texts (d.goal.map Literal.text)), ("horizon", d.horizon)]

/-- Whether two descriptions declare the same categories, initial literals and goal literals. -/
def agrees (d e : Description) : Bool :=
  decide (d.initial = e.initial) && decide (d.goal = e.goal) &&
    d.categories == e.categories

end Description

end StackingPlanner
