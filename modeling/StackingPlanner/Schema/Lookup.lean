import StackingPlanner.Misuse
import StackingPlanner.Schema.Basic

/-!
# Values for names

A value that is given for the name of an object names one only if it is a
text.  Any other value that may stand in a set names no object, and the rest
cannot be looked up.  A category may be declared under any value that may
stand in a set, and is known by the text of that value.  The main statement
says that for texts `canSupportOf` is `canSupport`.
-/

namespace StackingPlanner

/-- The text by which a value for the name of a category is known. -/
def Value.takeLabel (value : Value) : Except Misuse String :=
  match value.memberKey? with
  | some _ => .ok value.plain
  | none => .error .mismatch

/--
The names of categories that a value lists.  A single item that may stand in a
set is taken as its text; of several, which are put in order, each must be a
text.
-/
def CategoryDeclaration.takeAllowed (value : Value) : Except Misuse (OrderedSet String) := do
  match ← value.takeItems with
  | [item] => return OrderedSet.ofList [← item.takeLabel]
  | items => return OrderedSet.ofList (← items.mapM Value.takeText)

def DomainObject.ofValues (name category : Value) : Except Misuse DomainObject := do
  return ⟨← name.takeText, ← category.takeLabel⟩

namespace Schema

def memberOf (schema : Schema) (name : Value) : Except Fault Member :=
  match name, name.memberKey? with
  | .text s, _ => Fault.lift (schema.member s)
  | _, some _ => .error (Failure.unknownObject name.plain)
  | _, none => .error Misuse.mismatch

def canSupportOf (schema : Schema) (support occupant : Value) : Except Fault Bool :=
  if support.key = occupant.key ∧ support.equalsItself then .ok false
  else do
    let x ← schema.memberOf occupant
    if !x.category.movable then return false
    else return x.mayRestOn (← schema.memberOf support)

theorem memberOf_text (schema : Schema) (name : String) :
    schema.memberOf (.text name) = Fault.lift (schema.member name) := rfl

theorem canSupportOf_text (schema : Schema) (support occupant : String) :
    schema.canSupportOf (.text support) (.text occupant) =
      Fault.lift (schema.canSupport support occupant) := by
  simp only [canSupportOf, canSupport, memberOf_text, Value.key, Value.equalsItself, Key.text.injEq,
    and_true]
  split
  · rfl
  · cases schema.member occupant with
    | error failure => rfl
    | ok x =>
        change (if (!x.category.movable) = true then _ else _) = _
        by_cases movable : (!x.category.movable) = true
        · simp only [movable, if_true]
          rfl
        · simp only [movable]
          cases schema.member support <;> rfl

end Schema

end StackingPlanner
