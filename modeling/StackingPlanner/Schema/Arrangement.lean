import StackingPlanner.Schema.Basic
import StackingPlanner.Schema.Support

/-!
# Initial arrangements

A list of literals describes where objects rest and what is held.  If it makes
sense it is completed to a state: what is clear and whether the hand is empty
follow from the arrangement, and literals that say so must agree.
-/

namespace StackingPlanner

namespace Fluent

def placement? (f : Fluent) : Option (String × String) :=
  match f.args with
  | x :: y :: _ => if f.name = "on" then some (x, y) else none
  | _ => none

def held? (f : Fluent) : Option String :=
  match f.args with
  | x :: _ => if f.name = "holding" then some x else none
  | [] => none

end Fluent

def Links.checkAcyclic (links : Links) : Except Failure Unit :=
  match links.cycleStart? (sorted (links.map (·.1))) with
  | some x => .error (.supportCycle x)
  | none => .ok ()

/-- Where objects rest, and which objects are held. -/
structure Arrangement where
  links : Links
  held : List String

namespace Arrangement

def ofFacts (facts : OrderedSet Fluent) : Arrangement where
  links := facts.toList.filterMap Fluent.placement?
  held := facts.toList.filterMap Fluent.held?

def occupants (a : Arrangement) (support : String) : List String :=
  (a.links.filter (fun l => l.2 = support)).map (·.1)

def positions (a : Arrangement) (object : String) : Bool :=
  (a.links.lookup object).isSome || a.held.contains object

/-- The first object with two supports, with these. -/
def placedTwice? (before : Links) : Links → Option (String × String × String)
  | [] => none
  | link :: rest =>
      match before.lookup link.1 with
      | some support => some (link.1, support, link.2)
      | none => placedTwice? (before ++ [link]) rest

/-- Check that at most one object is held, and that it is neither placed nor carries anything. -/
def checkHeld (a : Arrangement) : Except Failure Unit :=
  match a.held with
  | [] => .ok ()
  | [x] =>
      match a.links.lookup x with
      | some support => .error (.heldAndPlaced x support)
      | none =>
          if (a.occupants x).isEmpty then .ok () else .error (.heldCarries x (a.occupants x))
  | several => .error (.severalHeld several)

/-- The first support for one object that carries several. -/
def overloaded? (schema : Schema) (a : Arrangement) : Option String :=
  (a.links.find? (fun l =>
    (schema.member? l.2).any (·.category.tracksClear) && decide (1 < (a.occupants l.2).length))).map
    (·.2)

def check (schema : Schema) (a : Arrangement) : Except Failure Unit := do
  match placedTwice? [] a.links with
  | some (x, first, second) => throw (.placedTwice x first second)
  | none => pure ()
  a.checkHeld
  match overloaded? schema a with
  | some support => throw (.overloaded support (a.occupants support))
  | none => pure ()
  a.links.checkAcyclic

def unplaced (schema : Schema) (a : Arrangement) : List String :=
  schema.movableNames.filter (fun x => !a.positions x)

def isClear (a : Arrangement) (object : String) : Bool :=
  (a.occupants object).isEmpty && !a.held.contains object

def facts (schema : Schema) (a : Arrangement) : OrderedSet Fluent :=
  OrderedSet.ofList
    (((schema.members.filter (fun m => m.category.tracksClear && a.isClear m.name)).map
        (fun m => .clear m.name)) ++
      (if a.held.isEmpty then [.handEmpty] else []) ++
      a.held.map .holding ++ a.links.map (fun l => .on l.1 l.2))

end Arrangement

namespace Schema

/-- The arrangement that a list of initial literals describes, if it is possible. -/
def arrangement (schema : Schema) (literals : List Literal) : Except Failure Arrangement := do
  schema.checkLiterals "initial" literals
  let a := Arrangement.ofFacts
    (OrderedSet.ofList ((literals.filter (·.positive)).map (·.fluent)))
  a.check schema
  return a

/-- The first literal on a clear object or the empty hand that an arrangement contradicts. -/
def contradicted? (facts : OrderedSet Fluent) (literals : List Literal) : Option Literal :=
  literals.find? (fun l =>
    (l.fluent.name = "clear" || l.fluent.name = "handempty") &&
      decide (l.fluent ∈ facts) != l.positive)

/-- The state of an arrangement, which the initial literals must not contradict. -/
def complete (schema : Schema) (a : Arrangement) (literals : List Literal) :
    Except Failure State :=
  match contradicted? (a.facts schema) literals with
  | some l => .error (.contradictsArrangement l)
  | none => .ok ⟨schema.scope, a.facts schema⟩

def initialState (schema : Schema) (literals : List Literal) : Except Failure State := do
  let a ← schema.arrangement literals
  schema.complete a literals

end Schema

end StackingPlanner
