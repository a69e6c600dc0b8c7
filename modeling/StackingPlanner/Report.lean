import StackingPlanner.Document.Basic

/-!
# Error reports

A report says what went wrong: its kind, a message, a context of named values
and possibly the report of the error that caused it.  An error from outside
the planner is reported by its name and its one argument.
-/

namespace StackingPlanner

inductive ReportKind where
  | planner
  | configuration
  | undeclaredCategory
  | undeclaredObject
  | invalidFluent
  | contradictoryLiterals
  | invariantViolation
  deriving DecidableEq, Repr

namespace ReportKind

def all : List ReportKind :=
  [planner, configuration, undeclaredCategory, undeclaredObject, invalidFluent,
    contradictoryLiterals, invariantViolation]

def name : ReportKind → String
  | planner => "PlannerException"
  | configuration => "ConfigurationError"
  | undeclaredCategory => "UndeclaredCategoryError"
  | undeclaredObject => "UndeclaredObjectError"
  | invalidFluent => "InvalidFluentError"
  | contradictoryLiterals => "ContradictoryLiteralsError"
  | invariantViolation => "InvariantViolationError"

def ofName? (s : String) : Option ReportKind := all.find? (fun kind => kind.name = s)

def isConfiguration : ReportKind → Bool
  | planner => false
  | invariantViolation => false
  | _ => true

/-- One sentence for a reader who does not know the planner. -/
def summary : ReportKind → String
  | planner => "An unexpected error occurred."
  | configuration => "The domain description is invalid."
  | undeclaredCategory => "The domain description references an undeclared category."
  | undeclaredObject => "The domain description references an undeclared object."
  | invalidFluent => "A literal cannot be expressed in this domain."
  | contradictoryLiterals => "A fluent and its negation are both declared true."
  | invariantViolation => "Internal planner error. The solve was halted."

end ReportKind

/-- A report on an error. -/
inductive Report where
  | planner (kind : ReportKind) (message : String) (context : Entries) (cause : Option Report)
  | outside (name : String) (argument : Value)
  deriving Inhabited

namespace Report

def name : Report → String
  | planner kind _ _ _ => kind.name
  | outside name _ => name

def contextText (context : Entries) : String :=
  String.intercalate ", " (context.map (fun entry => entry.1 ++ "=" ++ entry.2.plain))

mutual

/-- The parts of a report: the message, the context if there is any, the cause if there is one. -/
def parts : Report → List String
  | planner _ message context cause =>
      message :: (if context.isEmpty then [] else ["Context: " ++ contextText context]) ++
        causeParts cause
  | outside name argument => [if name = "KeyError" then argument.display else argument.plain]

def causeParts : Option Report → List String
  | none => []
  | some cause => ["Caused by: " ++ cause.name ++ ": " ++ String.intercalate " | " (parts cause)]

end

def text (report : Report) : String := String.intercalate " | " report.parts

/-- The report in the form of the call that would build its error again. -/
def shown : Report → String
  | planner kind message context _ =>
      kind.name ++ "(" ++ Text.quoted message ++ ", context=" ++ (Value.object context).display ++
        ")"
  | outside name argument => name ++ "(" ++ argument.display ++ ")"

def summary : Report → String
  | planner kind _ _ _ => kind.summary
  | outside _ _ => ReportKind.planner.summary

def detailed (report : Report) : String := report.summary ++ "\n\nDetails: " ++ report.text

def isConfiguration : Report → Bool
  | planner kind _ _ _ => kind.isConfiguration
  | outside _ _ => false

def cause? : Report → Option Report
  | planner _ _ _ cause => cause
  | outside _ _ => none

/-- The details that every report on a broken invariant has, null unless given. -/
def invariantDetails (details : Entries) : Entries :=
  ["step", "state", "action"].map (fun key => (key, (details.get? key).getD .null)) ++
    details.filter (fun entry => !(["step", "state", "action"].contains entry.1))

/--
Build a report.  The details override the context; a report on a broken
invariant always has its three details.
-/
def make (kind : ReportKind) (message : String) (context details : Entries)
    (cause : Option Report) : Report :=
  let details := if kind = .invariantViolation then invariantDetails details else details
  planner kind message (Entries.setAll (Entries.setAll [] context) details) cause

def wrap (cause : Report) (kind : ReportKind) (message : String) (context : Entries) : Report :=
  make kind message context [] (some cause)

end Report

def Value.Excess.report : Value.Excess → Report
  | longNumber =>
      .outside "ValueError"
        (.text ("Exceeds the limit (" ++ toString Number.mostDigits ++
          " digits) for integer string conversion; use sys.set_int_max_str_digits() to increase " ++
          "the limit"))
  | tooDeep =>
      .outside "RecursionError"
        (.text "maximum recursion depth exceeded while getting the repr of an object")

end StackingPlanner
