import StackingPlanner.Fluent.Grammar
import StackingPlanner.Report

/-!
# Failures of the planner

Each constructor of a failure is one cause.  The kind, the message and the
context by which it is reported are given in one place.  Some messages show a
value that was given; where that is beyond what can be shown, the attempt to form
the message is what fails.
-/

namespace StackingPlanner

def Problem.leastHorizon : Nat := 1

/-- Why a description file cannot be read. -/
inductive FileCause where
  | missing
  | isDirectory
  | notDirectory
  | present
  | nameTooLong
  | notDocument (message : String)
  deriving Repr

namespace FileCause

def described (path : String) : FileCause → String × String
  | missing => ("FileNotFoundError", "[Errno 2] No such file or directory: " ++ Text.quoted path)
  | isDirectory => ("IsADirectoryError", "[Errno 21] Is a directory: " ++ Text.quoted path)
  | notDirectory => ("NotADirectoryError", "[Errno 20] Not a directory: " ++ Text.quoted path)
  | present => ("FileExistsError", "[Errno 17] File exists: " ++ Text.quoted path)
  | nameTooLong => ("OSError", "[Errno 36] File name too long: " ++ Text.quoted path)
  | notDocument message => ("JSONDecodeError", message)

def report (path : String) (cause : FileCause) : Report :=
  .outside (cause.described path).1 (.text (cause.described path).2)

end FileCause

/-- Why the planner rejects a problem or halts a solve. -/
inductive Failure where
  /-- A category is declared twice. -/
  | categoryTwice (category : String)
  /-- A category declares a capacity other than none, one and unbounded. -/
  | badCapacity (category : String) (capacity : Value)
  /-- A movable category is to carry an unbounded number of occupants. -/
  | movableTable (category : String)
  /-- A category allows occupants of a category that is not declared. -/
  | unknownOccupant (category occupant : String)
  /-- An object is declared twice. -/
  | objectTwice (object : String)
  /-- An object has a category that is not declared. -/
  | unknownCategory (object category : String)
  /-- The effects of an action contain a literal and its contrary. -/
  | actionContradicts (action : String) (literal : Literal)
  /-- An object is not declared. -/
  | unknownObject (object : String)
  /-- A literal mentions an object that is not declared. -/
  | unknownArgument (literal : Literal) (object : String)
  /-- No fluent has this name and this number of arguments. -/
  | unknownFluent (fluent : Fluent)
  /-- The categories of the arguments rule a fluent out. -/
  | fluentRuledOut (fluent : Fluent)
  /-- A fluent is outside the universe of a state. -/
  | fluentOutside (fluent : Fluent)
  /-- A set of literals contains a literal and its contrary. -/
  | contradiction (label : String) (literal : Literal)
  /-- No action brings a literal about. -/
  | noOperator (label : String) (literal : Literal)
  /-- An object is placed on two supports. -/
  | placedTwice (object first second : String)
  /-- Several objects are held initially. -/
  | severalHeld (objects : List String)
  /-- An object is both held and placed. -/
  | heldAndPlaced (object support : String)
  /-- A held object carries others. -/
  | heldCarries (object : String) (occupants : List String)
  /-- A support for one object carries several. -/
  | overloaded (support : String) (occupants : List String)
  /-- Following supports from an object leads into a cycle. -/
  | supportCycle (object : String)
  /-- A literal contradicts the initial arrangement. -/
  | contradictsArrangement (literal : Literal)
  /-- A horizon is not a whole number. -/
  | horizonKind (horizon : Value)
  /-- A horizon is below one. -/
  | horizonBelowOne (horizon : Int)
  /-- A node budget is negative. -/
  | negativeNodes (maxNodes : Value)
  /-- A time limit is negative. -/
  | negativeTime (timeLimit : Value)
  /-- There is no worker. -/
  | noWorker (maxWorkers : Value)
  /-- A literal is not written as a text. -/
  | literalKind (value : Value)
  /-- A text is no literal. -/
  | literalForm (text : String) (misspelling : Literal.Misspelling)
  /-- A part of a description is of the wrong kind. -/
  | wrongKind (part : String) (expected : Value.Kind) (value : Value)
  /-- A section of a description is missing. -/
  | missingSection (name : String)
  /-- The horizon of a description is not a whole number from one on. -/
  | describedHorizon (horizon : Value)
  /-- A description file cannot be read. -/
  | unreadable (path : String) (cause : FileCause)
  /-- A description file holds a document that is not an object. -/
  | notObject (path : String)
  /-- A state holds fluents outside its universe. -/
  | strayFluents (fluents : List String) (step : Value) (state : String)
  /-- An action occurs without its preconditions. -/
  | unmetPreconditions (action : String) (missing : List Literal) (step : Value) (state : String)
  /-- A state is not a sane arrangement. -/
  | insaneState (problems : List String) (step : Value) (state : String) (action : Option String)

namespace Failure

def blame (kind : ReportKind) (message : String) (context : Entries) : Report :=
  Report.make kind message context [] none

def defect (message : String) (step : Value) (state : String) (action : Option String) : Report :=
  Report.make .invariantViolation message []
    [("step", step), ("state", .text state), ("action", Value.orNull .text action)] none

def contradictionReport (label : String) (literal : Literal) : Report :=
  blame .contradictoryLiterals
    (label ++ " declares both " ++ literal.text ++ " and " ++ literal.contrary.text)
    [("fluent", .text literal.fluent.text)]

/-- The report on a failure whose message can be formed. -/
def account : Failure → Report
  | categoryTwice category =>
      blame .configuration ("Category '" ++ category ++ "' declared twice")
        [("category", .text category)]
  | badCapacity category capacity =>
      blame .configuration
        ("Category '" ++ category ++ "' has unsupported max_occupants " ++
          capacity.display ++ " (expected 0, 1 or None)")
        [("category", .text category)]
  | movableTable category =>
      blame .configuration
        ("Movable category '" ++ category ++ "' cannot carry an unbounded number of occupants")
        [("category", .text category)]
  | unknownOccupant category occupant =>
      blame .undeclaredCategory
        ("Capability of '" ++ category ++ "' references undeclared category '" ++ occupant ++ "'")
        [("category", .text occupant)]
  | objectTwice object =>
      blame .configuration ("Object '" ++ object ++ "' declared twice")
        [("object_name", .text object)]
  | unknownCategory object category =>
      blame .undeclaredCategory
        ("Object '" ++ object ++ "' has undeclared category '" ++ category ++ "'")
        [("category", .text category)]
  | actionContradicts action literal =>
      Report.make .configuration ("Action " ++ action ++ " causes a literal and its contrary")
        [("action", .text action)] []
        (some (contradictionReport ("effect set of " ++ action) literal))
  | unknownObject object =>
      blame .undeclaredObject ("Object '" ++ object ++ "' is not declared in any category")
        [("object_name", .text object)]
  | unknownArgument literal object =>
      blame .undeclaredObject
        ("Literal " ++ literal.text ++ " references undeclared object '" ++ object ++ "'")
        [("object_name", .text object)]
  | unknownFluent fluent =>
      blame .invalidFluent ("Unknown fluent or wrong arity: " ++ fluent.text)
        [("fluent", .text fluent.text)]
  | fluentRuledOut fluent =>
      blame .invalidFluent ("Fluent " ++ fluent.text ++ " violates category constraints")
        [("fluent", .text fluent.text)]
  | fluentOutside fluent =>
      blame .invalidFluent ("Fluent " ++ fluent.text ++ " is not part of the domain")
        [("fluent", .text fluent.text)]
  | contradiction label literal => contradictionReport label literal
  | noOperator label literal =>
      blame .configuration
        (label ++ " literal " ++ literal.text ++
          " has no category-compatible operator instantiation")
        [("literal", .text literal.text)]
  | placedTwice object first second =>
      blame .configuration
        ("Object '" ++ object ++ "' is placed on both '" ++ first ++ "' and '" ++ second ++ "'")
        [("object_name", .text object)]
  | severalHeld objects =>
      blame .configuration
        ("More than one object held initially: " ++ Text.quotedList objects)
        [("held", Value.texts objects)]
  | heldAndPlaced object support =>
      blame .configuration
        ("Object '" ++ object ++ "' is both held and placed on '" ++ support ++ "'")
        [("object_name", .text object)]
  | heldCarries object occupants =>
      blame .configuration
        ("Held object '" ++ object ++ "' carries " ++ Text.quotedList occupants)
        [("object_name", .text object)]
  | overloaded support occupants =>
      blame .configuration
        ("Support '" ++ support ++ "' holds " ++ toString occupants.length ++
          " objects but admits one")
        [("support", .text support), ("occupants", Value.texts occupants)]
  | supportCycle object =>
      blame .configuration
        ("Initial arrangement contains a support cycle through '" ++ object ++ "'")
        [("object_name", .text object)]
  | contradictsArrangement literal =>
      blame .contradictoryLiterals
        ("Initial literal " ++ literal.text ++ " contradicts the initial arrangement")
        [("fluent", .text literal.fluent.text)]
  | horizonKind horizon =>
      blame .configuration ("Horizon must be an integer, got " ++ horizon.display)
        [("horizon", horizon)]
  | horizonBelowOne horizon =>
      blame .configuration
        ("Horizon must be >= " ++ toString Problem.leastHorizon ++ ", got " ++ toString horizon)
        [("horizon", .whole horizon)]
  | negativeNodes maxNodes =>
      blame .configuration ("max_nodes must be >= 0, got " ++ maxNodes.plain)
        [("max_nodes", maxNodes)]
  | negativeTime timeLimit =>
      blame .configuration ("time_limit must be >= 0, got " ++ timeLimit.plain)
        [("time_limit", timeLimit)]
  | noWorker maxWorkers =>
      blame .configuration ("max_workers must be >= 1, got " ++ maxWorkers.plain)
        [("max_workers", maxWorkers)]
  | literalKind value =>
      blame .configuration ("Literal must be a string, got " ++ value.kind.name)
        [("literal", .text value.display)]
  | literalForm text .form =>
      blame .configuration ("Cannot parse literal " ++ Text.quoted text) [("literal", .text text)]
  | literalForm text .arguments =>
      blame .configuration ("Invalid argument list in literal " ++ Text.quoted text)
        [("literal", .text text)]
  | wrongKind part expected value =>
      blame .configuration
        (part ++ " must be " ++ expected.name ++ ", got " ++ value.kind.name)
        [("entry", .text part), ("value", .text value.display)]
  | missingSection name =>
      blame .configuration ("Domain description lacks section '" ++ name ++ "'")
        [("section", .text name)]
  | describedHorizon horizon =>
      blame .configuration ("Horizon must be an integer >= 1, got " ++ horizon.display)
        [("horizon", horizon)]
  | unreadable path cause =>
      Report.make .configuration "Cannot read domain description" [("path", .text path)] []
        (some (cause.report path))
  | notObject path =>
      blame .configuration "Domain description must be a JSON object" [("path", .text path)]
  | strayFluents fluents step state =>
      defect ("State holds fluents outside the domain: " ++ Text.quotedList fluents) step state
        none
  | unmetPreconditions action missing step state =>
      defect
        ("Action " ++ action ++ " occurs without its preconditions " ++
          Text.quotedList (missing.map Literal.text))
        step state (some action)
  | insaneState problems step state action =>
      defect ("Invalid state reached: " ++ String.intercalate "; " problems) step state action

/-- Whether a failure blames the description, if its message can be formed. -/
def isConfiguration (failure : Failure) : Bool := failure.account.isConfiguration

/-- The value that the message of a failure shows. -/
def shown? : Failure → Option Value
  | badCapacity _ capacity => some capacity
  | horizonKind horizon => some horizon
  | horizonBelowOne horizon => some (.whole horizon)
  | negativeNodes maxNodes => some maxNodes
  | negativeTime timeLimit => some timeLimit
  | noWorker maxWorkers => some maxWorkers
  | literalKind value => some value
  | wrongKind _ _ value => some value
  | describedHorizon horizon => some horizon
  | _ => none

/-- What is in the way of forming the message of a failure. -/
def excess? (failure : Failure) : Option Value.Excess :=
  failure.shown?.bind (Value.excess? Value.mostNested)

/-- The report on what comes of a failure, be it that its message cannot be formed. -/
def report (failure : Failure) : Report :=
  match failure.excess? with
  | none => failure.account
  | some excess => excess.report

end Failure

end StackingPlanner
