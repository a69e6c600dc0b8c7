import StackingPlanner.Description.Basic
import StackingPlanner.PlanCheck
import StackingPlanner.Search.Branching

/-!
# The planner

A planner solves problems with one worker, which searches without branches, or
with several, which search by branches.  Its findings are a plan, that there
is none within the horizon, or that the budget was used up.
-/

namespace StackingPlanner

structure Planner where
  settings : SearchSettings
  workers : Number
  workers_pos : workers.isBelow (.whole 1) = false

structure Finding where
  problem : Problem
  verdict : Verdict
  statistics : Statistics

namespace Finding

def timeline? (f : Finding) : Option Timeline := f.verdict.timeline?

def plan? (f : Finding) : Option Plan := f.timeline?.map Timeline.plan

def goalReachedAt (f : Finding) : Option Nat :=
  f.timeline?.bind (fun t => t.goalReachedAt f.problem.goal.toList)

def entries (f : Finding) : Entries := f.verdict.entries f.statistics

def stepValue (step : Int × Action) : Value :=
  .object [("step", .whole step.1), ("action", .text step.2.name)]

/-- The timeline as a further entry, if it is wanted and there is one. -/
def timelineEntry (f : Finding) (withTimeline : Bool) : Entries :=
  match f.timeline? with
  | some t => if withTimeline then [("timeline", t.toValue)] else []
  | none => []

def toValue (f : Finding) (withTimeline : Bool) : Value :=
  .object
    ([("status", .text f.verdict.text), ("horizon", .whole f.problem.horizon),
      ("plan", Value.orNull (fun p : Plan => .list (p.steps.map stepValue)) f.plan?),
      ("goal_reached_at", Value.orNull (fun n : Nat => .whole n) f.goalReachedAt),
      ("abort_reason", Value.orNull (fun r : Refusal => .text r.text) f.verdict.reason?),
      ("statistics", f.statistics.toValue)] ++ f.timelineEntry withTimeline)

end Finding

namespace Planner

/-- A planner with a number of workers, of which there must be one at least. -/
def make (settings : SearchSettings) (workers : Value) : Except Fault Planner :=
  match workers.number? with
  | none => .error Misuse.mismatch
  | some n =>
      if h : n.isBelow (.whole 1) = false then .ok ⟨settings, n, h⟩
      else .error (Failure.noWorker workers)

def branches (p : Planner) : Bool := Number.isBelow (.whole 1) p.workers

def explore (p : Planner) (problem : Problem) : Except Fault Exploration :=
  if p.branches then Branching.explore p.settings problem else Search.explore p.settings problem

def finding (problem : Problem) (e : Exploration) : Finding :=
  ⟨problem, e.outcome.verdict, e.outcome.statistics⟩

def solve (p : Planner) (problem : Problem) : Except Fault Finding :=
  (p.explore problem).map (finding problem)

def solveDescription (p : Planner) (d : Description) : Except Fault Finding := do
  let problem ← Fault.lift d.problem
  p.solve problem

def strategy (p : Planner) : String :=
  if p.branches then "horizon_dfs_parallel" else "horizon_dfs"

def capabilities : List String :=
  ["planning", "bounded_horizon_planning", "depth_first_search", "forward_planning",
    "frame_reasoning", "goal_achievement", "plan_validation"]

/-- The relative cost of planning, near the top of a scale from zero to one. -/
def estimatedCost : Float := Number.quotient 7 10

end Planner

end StackingPlanner
