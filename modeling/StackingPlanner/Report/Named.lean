import StackingPlanner.Misuse

/-!
# Reports from named values

A report can be built from a message and named values, some of whose names are
taken: they stand for the message, the context or the cause.
-/

namespace StackingPlanner

namespace Report

/-- The context that a detail of this name states; one that does not count is empty. -/
def takeContext : Value → Except Misuse Entries
  | .object entries => .ok entries
  | value => if value.counts then .error .mismatch else .ok []

/-- The context of a report: the one that is given, or else the one that the details state. -/
def contextAmong (details : Entries) : Option Entries → Except Misuse Entries
  | some context => .ok context
  | none => takeContext ((details.get? "context").getD .null)

/-- Check that the details state no cause of their own beside a given one. -/
def checkCause (details : Entries) (cause : Option Report) : Except Misuse Unit :=
  match details.get? "original_exception", cause with
  | none, _ => .ok ()
  | some .null, _ => .ok ()
  | some _, some _ => .ok ()
  | some _, none => .error .mismatch

def takenDetails : List String := ["context", "original_exception"]

def ofNamed (kind : ReportKind) (message : Value) (context : Option Entries) (details : Entries)
    (cause : Option Report) : Except Misuse Report := do
  if details.any (fun entry => ["self", "message"].contains entry.1) then throw .mismatch
  checkCause details cause
  let context ← contextAmong details context
  let message ← message.takeText
  return make kind message context
    (details.filter (fun entry => !(takenDetails.contains entry.1))) cause

def wrapNamed (cause : Report) (kind : Option ReportKind) (message : Value) (context : Entries) :
    Except Misuse Report := do
  if context.any (fun entry =>
      ["exc", "planner_exception_class", "message"].contains entry.1) then throw .mismatch
  match kind with
  | some kind => return cause.wrap kind (← message.takeText) context
  | none => throw .mismatch

end Report

end StackingPlanner
