import StackingPlanner.Description.Basic

/-!
# Reading descriptions

A description is read from an object with the sections `categories`,
`objects`, `initial`, `goal` and `horizon`.  The first part that is missing or
of the wrong kind is reported.
-/

namespace StackingPlanner

def Literal.ofValue : Value → Except Failure Literal
  | .text s =>
      match Literal.parse s with
      | .ok l => .ok l
      | .error misspelling => .error (.literalForm s misspelling)
  | other => .error (.literalKind other)

namespace Description

/-- The object that a part of a description must be. -/
def readObject (part : String) : Value → Except Failure Entries
  | .object entries => .ok entries
  | other => .error (.wrongKind part .object other)

def readList (part : String) : Value → Except Failure (List Value)
  | .list items => .ok items
  | other => .error (.wrongKind part .list other)

def readText (part : String) : Value → Except Failure String
  | .text s => .ok s
  | other => .error (.wrongKind part .text other)

def readBool (part : String) : Value → Except Failure Bool
  | .bool b => .ok b
  | other => .error (.wrongKind part .bool other)

/-- The whole number that a part of a description must be, or null. -/
def readCapacity (part : String) : Value → Except Failure Value
  | .null => .ok .null
  | .number (.whole n) => .ok (.whole n)
  | other => .error (.wrongKind part .whole other)

/-- The settings of a category; null stands for none. -/
def readSettings (part : String) : Value → Except Failure Entries
  | .null => .ok []
  | other => readObject part other

def readCategory (name : String) (value : Value) : Except Failure CategoryDeclaration := do
  let part := "categories." ++ name
  let settings ← readSettings part value
  let capacity ←
    readCapacity (part ++ ".max_occupants") ((settings.get? "max_occupants").getD (.whole 1))
  let allowed ←
    readList (part ++ ".allowed_occupants") ((settings.get? "allowed_occupants").getD (.list []))
  let occupants ← allowed.mapM (readText (part ++ ".allowed_occupants entry"))
  let movable ← readBool (part ++ ".movable") ((settings.get? "movable").getD (.bool true))
  return ⟨name, capacity, OrderedSet.ofList occupants, .bool movable⟩

def readMember (name : String) (value : Value) : Except Failure DomainObject := do
  return ⟨name, ← readText ("objects." ++ name) value⟩

/-- The value of a section, which must be there. -/
def readSection (entries : Entries) (name : String) : Except Failure Value :=
  match entries.get? name with
  | some value => .ok value
  | none => .error (.missingSection name)

/-- Read a horizon: a whole number from one on. -/
def readHorizon : Value → Except Failure Int
  | .number (.whole n) => if n < 1 then .error (.describedHorizon (.whole n)) else .ok n
  | other => .error (.describedHorizon other)

def readLiterals (part : String) (value : Value) : Except Failure (List Literal) := do
  let items ← readList part value
  items.mapM (fun item => do Literal.ofValue (.text (← readText (part ++ " entry") item)))

/-- Read a description; if it has no name, the default stands for that. -/
def ofValue (value defaultName : Value) : Except Failure Description := do
  let entries ← readObject "domain description" value
  let categories ← readSection entries "categories"
  let objects ← readSection entries "objects"
  let initial ← readSection entries "initial"
  let goal ← readSection entries "goal"
  let horizon ← readSection entries "horizon"
  let categories ← (← readObject "categories" categories).mapM (fun e => readCategory e.1 e.2)
  let objects ← (← readObject "objects" objects).mapM (fun e => readMember e.1 e.2)
  let horizon ← readHorizon horizon
  let initial ← readLiterals "initial" initial
  let goal ← readLiterals "goal" goal
  let name ← readText "name" ((entries.get? "name").getD defaultName)
  let metadata ← readObject "metadata" ((entries.get? "metadata").getD (.object []))
  return ⟨categories, objects, initial, goal, .whole horizon, .text name, metadata⟩

end Description

end StackingPlanner
