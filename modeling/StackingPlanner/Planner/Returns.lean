import StackingPlanner.Planner
import StackingPlanner.Search.Pool

/-!
# What a planner can return

What a planner returns may depend on what its clock shows, if the budget limits
the time, and on the turns that its threads take, if it has several workers.
A planner with one worker searches without branches.
-/

namespace StackingPlanner

namespace Planner

/-- What a planner has found for a problem when a search has an outcome. -/
def conclude (problem : Problem) (o : Outcome) : Finding := ⟨problem, o.verdict, o.statistics⟩

/-- A planner may keep so many workers busy at a time. -/
def Employs (planner : Planner) (workers : Nat) : Prop :=
  1 ≤ workers ∧ Number.isBelow (.whole (workers - 1)) planner.workers = true

/--
What a planner can return for a problem, depending on its clock and on the turns
of its threads.
-/
inductive Returns (planner : Planner) (clock : Clock) (problem : Problem) :
    Except Fault Finding → Prop where
  /-- One worker searches without branches. -/
  | alone (single : planner.branches = false) :
      Returns planner clock problem
        ((Search.run problem.schema planner.settings problem.initial problem.goal problem.horizon 1
          (Meter.fresh planner.settings.budget clock)).1.map (conclude problem))
  /-- Several workers search by branches. -/
  | together (several : planner.branches = true) {workers : Nat}
      (employs : planner.Employs workers) {result : Except Fault Outcome}
      (returns : Branching.ReturnsFrom workers planner.settings problem
        (Meter.fresh planner.settings.budget clock).start result) :
      Returns planner clock problem (result.map (conclude problem))

/-- What a planner can return for a description, which need not make sense. -/
inductive ReturnsFor (planner : Planner) (clock : Clock) (d : Description) :
    Except Fault Finding → Prop where
  | refused {failure : Failure} (senseless : d.problem = .error failure) :
      ReturnsFor planner clock d (.error failure)
  | solved {problem : Problem} (states : d.problem = .ok problem)
      {result : Except Fault Finding} (returns : planner.Returns clock problem result) :
      ReturnsFor planner clock d result

end Planner

end StackingPlanner
