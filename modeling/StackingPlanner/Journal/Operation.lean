import StackingPlanner.Journal.Record
import StackingPlanner.Report
import StackingPlanner.Search.Clock

/-!
# Journal records on operations

Operations are recorded when they start and when they end, errors with their
reports, and blocks of work with the time that they took.
-/

namespace StackingPlanner

namespace Channel

/-- Check that none of some named values has a name that is taken. -/
def checkNames (taken : List String) (values : Entries) : Except Misuse Unit :=
  if values.any (fun entry => taken.contains entry.1) then .error .mismatch else .ok ()

def takenByBinding : List String := ["self"]

/-- The names that are taken in the record of the start or the end of an operation. -/
def takenByOperation : List String := ["logger", "operation"]

def takenByError : List String := ["self", "exc"]

def takenByRejection : List String :=
  takenByOperation ++ ["error", "message"] ++ takenByError

def takenByBlock : List String := ["self", "logger", "operation_name"]

/--
The record of an error, after a message that counts or in the form of the call
that builds it again.
-/
def errorRecord (c : Channel) (report : Report) (message : Value) (values : Entries) : Record :=
  c.record .error
    (if message.counts then message.plain ++ ": " ++ report.name ++ ": " ++ report.text
    else report.shown) values

/--
The record of an error with a message apart from the values or, without one,
under their name `message`.
-/
def errorRecord? (c : Channel) (report : Report) (message : Option Value) (values : Entries) :
    Except Misuse Record := do
  checkNames takenByError values
  match message with
  | some message =>
      checkNames ["message"] values
      return c.errorRecord report message values
  | none =>
      return c.errorRecord report ((values.get? "message").getD .null)
        (values.filter (fun entry => entry.1 ≠ "message"))

def startRecord (c : Channel) (operation : String) (values : Entries) : Record :=
  c.record .info (operation ++ " started") values

def endRecord (c : Channel) (operation : String) (values : Entries) : Record :=
  c.record .info (operation ++ " finished") values

def rejectRecord (c : Channel) (operation : String) (report : Report) (values : Entries) :
    Record :=
  c.errorRecord report (.text (operation ++ " rejected")) values

def timing : Channel := { name := "planner.timing" }

/-- The values of a block of work with its duration, rounded to microseconds. -/
def timed (values : Entries) (duration : Float) : Entries :=
  values.setAll [("duration_ms", .real (Number.roundTo 3 duration))]

/--
The record of a block of work: on the channel of durations if it ended well,
otherwise on its own channel, without the values bound to that.
-/
def blockRecord (c : Channel) (operation : String) (values : Entries) (duration : Float) :
    Option Report → Record
  | none => timing.record .debug operation (timed values duration)
  | some report =>
      Channel.record { name := c.name } .warning
        (operation ++ " failed after " ++ Number.fixedText 1 duration ++ "ms")
        ((timed values duration).setAll [("error", .text report.shown)])

end Channel

end StackingPlanner
