import StackingPlanner.Schema.Arrangement

/-!
# Sane states

A state is sane if it is an arrangement that could be built: at most one object
is held, no object is in two places, no support is overloaded, and what is
clear and whether the hand is empty agree with that.
-/

namespace StackingPlanner

/-- A way in which a state is no sane arrangement. -/
inductive Violation where
  | severalHeld (objects : List String)
  | handMismatch
  | heldAndPlaced (object : String)
  | heldCarries (object : String) (count : Nat)
  | severalSupports (object : String) (count : Nat)
  | overloaded (support : String) (count : Nat)
  | clearMismatch (object : String)
  deriving DecidableEq, Repr

namespace Violation

def text : Violation → String
  | severalHeld objects => "holding several objects: " ++ Text.quotedList objects
  | handMismatch => "handempty disagrees with holding"
  | heldAndPlaced object => object ++ " is held and placed"
  | heldCarries object count => "held object " ++ object ++ " carries " ++ toString count ++
      " objects"
  | severalSupports object count => object ++ " rests on " ++ toString count ++ " supports"
  | overloaded support count => support ++ " carries " ++ toString count ++ " objects"
  | clearMismatch object => "clear(" ++ object ++ ") disagrees with the arrangement"

end Violation

namespace Schema

def heldViolations (a : Arrangement) (handEmpty : Bool) : List Violation :=
  (if 1 < a.held.length then [.severalHeld (sorted a.held)] else []) ++
    (if handEmpty == !a.held.isEmpty then [.handMismatch] else []) ++
    a.held.flatMap (fun x =>
      (if (a.links.lookup x).isSome then [.heldAndPlaced x] else []) ++
        (if (a.occupants x).isEmpty then [] else [.heldCarries x (a.occupants x).length]))

def supportCount (a : Arrangement) (object : String) : Nat :=
  (a.links.filter (fun l => l.1 = object)).length

def placedViolations (a : Arrangement) : List Violation :=
  ((OrderedSet.ofList (a.links.map (·.1))).toList.filter (fun x => 1 < supportCount a x)).map
    (fun x => .severalSupports x (supportCount a x))

def memberViolations (a : Arrangement) (s : State) (m : Member) : List Violation :=
  if m.category.tracksClear then
    let count := (a.occupants m.name).length
    (if 1 < count then [.overloaded m.name count] else []) ++
      (if s.isTrue (.clear m.name) == a.isClear m.name then [] else [.clearMismatch m.name])
  else []

/-- Everything that keeps a state from being a sane arrangement. -/
def violations (schema : Schema) (s : State) : List Violation :=
  let a := Arrangement.ofFacts s.facts
  heldViolations a (s.isTrue .handEmpty) ++ placedViolations a ++
    schema.members.flatMap (memberViolations a s)

def problems (schema : Schema) (s : State) : List String :=
  sorted ((schema.violations s).map Violation.text)

def lacksArgument (f : Fluent) : Bool :=
  (f.name = "on" && f.args.length < 2) || (f.name = "holding" && f.args.isEmpty)

/-- The texts of all violations of a state, whose placings and holdings must be complete. -/
def inspect (schema : Schema) (s : State) : Except Misuse (List String) :=
  if s.facts.toList.any lacksArgument then .error .argumentIndex else .ok (schema.problems s)

/-- Check that a state stays within its scope and is a sane arrangement. -/
def verify (schema : Schema) (s : State) (step : Value) (action : Option Action) :
    Except Failure Unit := do
  s.checkScope step
  if !(schema.violations s).isEmpty then
    throw (.insaneState (schema.problems s) step s.line (action.map Action.name))

end Schema

end StackingPlanner
