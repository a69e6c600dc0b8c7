import StackingPlanner.Problem
import StackingPlanner.Search.Machine

/-!
# Searching

A search runs the machine from an initial state and reports how it ended.  That
there is no plan within the horizon and that the budget is used up are
outcomes, not errors.
-/

namespace StackingPlanner

structure SearchSettings where
  budget : Budget := {}
  /-- Whether states that failed are remembered. -/
  usesTable : Bool := true
  /-- The number of states that are remembered at most, as it was given. -/
  tableSize : Value := .whole 200000
  /-- Whether every transition is checked. -/
  checked : Bool := true
  /-- The clock that times a search. -/
  stopwatch : Clock := .still

inductive Verdict where
  | success (timeline : Timeline)
  | noPlan
  | aborted (reason : Refusal)

namespace Verdict

def text : Verdict → String
  | success _ => "success"
  | noPlan => "no_plan_within_horizon"
  | aborted _ => "aborted"

def isSuccess : Verdict → Bool
  | success _ => true
  | _ => false

def timeline? : Verdict → Option Timeline
  | success timeline => some timeline
  | _ => none

def reason? : Verdict → Option Refusal
  | aborted reason => some reason
  | _ => none

def entries (v : Verdict) (statistics : Statistics) : Entries :=
  ("status", .text v.text) :: statistics.entries

end Verdict

structure Outcome where
  verdict : Verdict
  statistics : Statistics
  startStep : Int

namespace Outcome

/-- The last step that a search came to, if its first step is shown as a number. -/
def lastStep (o : Outcome) (shown : Value) : Value :=
  let last := o.statistics.maxStep
  if last < o.startStep then .whole last else shown.countOn (last - o.startStep).toNat

/-- An outcome as named values, its steps counted from the first one as it is shown. -/
def entriesFrom (o : Outcome) (shown : Value) : Entries :=
  let statistics := { o.statistics.toGiven with maxStep := o.lastStep shown }
  [("status", .text o.verdict.text), ("success", .bool o.verdict.isSuccess),
    ("abort_reason", Value.orNull (fun r : Refusal => .text r.text) o.verdict.reason?),
    ("start_step", shown), ("statistics", .object (statistics.under o.statistics.shownTime)),
    ("timeline", Value.orNull Timeline.toValue o.verdict.timeline?),
    ("plan", Value.orNull (fun t : Timeline => Value.texts t.plan.lines) o.verdict.timeline?)]

def entries (o : Outcome) : Entries := o.entriesFrom (.whole o.startStep)

end Outcome

structure Exploration where
  outcome : Outcome
  /-- The number of branches at the first step, if the search was made by branches. -/
  branches : Option Nat
  /-- The outcomes of the searches that were made, in order. -/
  explored : List Outcome

namespace SearchSettings

def table (settings : SearchSettings) :
    Except Misuse (Option StateTable) :=
  if settings.usesTable then (DeadEndTable.make settings.tableSize).map some else .ok none

/-- Check the state that a search starts in, if checks are wanted. -/
def checkStart (settings : SearchSettings) (schema : Schema) (s : State) (step : Value) :
    Except Failure Unit :=
  if settings.checked then schema.verify s step none else .ok ()

end SearchSettings

namespace Search

def conclude (settings : SearchSettings) (startStep : Int) (ending : Ending)
    (statistics : Statistics) : Except Fault Outcome :=
  let statistics := { statistics with elapsedMs := .real settings.stopwatch.span }
  match ending with
  | .reached timeline => .ok ⟨.success timeline, statistics, startStep⟩
  | .exhausted => .ok ⟨.noPlan, statistics, startStep⟩
  | .refused reason => .ok ⟨.aborted reason, statistics, startStep⟩
  | .broken failure => .error failure
  | .narrow => .error Misuse.narrowTable

/--
Search from a state at a start step for choices that reach the goal by the last
step, charging a meter.  Messages show the start step as it was given.
-/
def runFrom (schema : Schema) (settings : SearchSettings) (initial : State)
    (goal : OrderedSet Literal) (horizon startStep : Int) (shown : Value) (meter : Meter) :
    Except Fault Outcome × Meter :=
  match settings.table with
  | .error misuse => (.error misuse, meter.start)
  | .ok table =>
      match settings.checkStart schema initial shown with
      | .error failure => (.error failure, meter.start)
      | .ok () =>
          let (ending, machine) :=
            Machine.run ⟨schema, settings.checked, goal, horizon.toNat⟩
              (Machine.initial (horizon - startStep).toNat initial table meter.start)
          (conclude settings startStep ending machine.statistics, machine.meter)

/-- Search between two steps, which must follow each other. -/
def run (schema : Schema) (settings : SearchSettings) (initial : State)
    (goal : OrderedSet Literal) (horizon startStep : Int) (meter : Meter) :
    Except Fault Outcome × Meter :=
  if startStep < 1 ∨ horizon < startStep then
    (.error (Misuse.startStep (.whole startStep) (.whole horizon)), meter)
  else runFrom schema settings initial goal horizon startStep (.whole startStep) meter

def solve (settings : SearchSettings) (problem : Problem) : Except Fault Outcome :=
  (run problem.schema settings problem.initial problem.goal problem.horizon 1
    (Meter.fresh settings.budget .still)).1

def explore (settings : SearchSettings) (problem : Problem) : Except Fault Exploration :=
  (solve settings problem).map (fun outcome => ⟨outcome, none, [outcome]⟩)

end Search

end StackingPlanner
