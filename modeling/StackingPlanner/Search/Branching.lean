import StackingPlanner.Search.Outcome

/-!
# Searching by branches

The choices at the first step are explored as branches of their own, which
share one meter but not their tables.  A success counts only if every branch
before it has failed, so the plan is the one that a search without branches
would find.
-/

namespace StackingPlanner

namespace Branching

def checkWorkers (workers : Value) : Except Misuse Unit :=
  match workers.number? with
  | none => .error .mismatch
  | some n => if n.isBelow (.whole 1) then .error (.branchWorkers workers) else .ok ()

def usualWorkers : Nat := 4

def successors (schema : Schema) (checked : Bool) (initial : State) :
    List Choice → Except Failure (List (Choice × State))
  | [] => .ok []
  | choice :: rest => do
      let s ← schema.advance checked initial choice (.whole 1)
      return (choice, s) :: (← successors schema checked initial rest)

/-- What looking at branches in order leads to, with the outcomes of their searches. -/
abbrev Findings := Verdict × Statistics × List Outcome × Meter

/-- Search the branches in order until one does not fail. -/
def search (settings : SearchSettings) (problem : Problem) :
    List (Choice × State) → Statistics → List Outcome → Meter → Except Fault Findings
  | [], statistics, explored, meter => .ok (.noPlan, statistics, explored, meter)
  | (choice, s) :: rest, statistics, explored, meter => do
      let (outcome, meter) :=
        Search.run problem.schema settings s problem.goal problem.horizon 2 meter
      let branch ← outcome
      let statistics := statistics.merge branch.statistics
      let explored := explored ++ [branch]
      match branch.verdict with
      | .noPlan => search settings problem rest statistics explored meter
      | .aborted reason => return (.aborted reason, statistics, explored, meter.cancel)
      | .success timeline =>
          return (.success (timeline.precede problem.initial choice), statistics, explored,
            meter.cancel)

/-- Branch at the first step of a problem whose first visit was granted. -/
def branch (settings : SearchSettings) (problem : Problem) (meter : Meter) :
    Except Fault Exploration := do
  Fault.lift (settings.checkStart problem.schema problem.initial (.whole 1))
  let branches ← Fault.lift (successors problem.schema settings.checked problem.initial
    (problem.schema.candidates problem.initial))
  let (verdict, statistics, explored, meter) ←
    search settings problem branches (Counts.zero.visit 1) [] meter
  let statistics :=
    { statistics with
      transitions := statistics.transitions + branches.length
      elapsedMs := .real (meter.elapsed.1 * 1000) }
  return ⟨⟨verdict, statistics, 1⟩, some branches.length, explored⟩

def explore (settings : SearchSettings) (problem : Problem) : Except Fault Exploration := do
  let meter := (Meter.fresh settings.budget .still).start
  if problem.horizon = 1 || problem.isGoal problem.initial then
    let outcome ←
      (Search.run problem.schema settings problem.initial problem.goal problem.horizon 1 meter).1
    return ⟨outcome, none, [outcome]⟩
  else
    match meter.charge with
    | (some reason, _) => return ⟨⟨.aborted reason, Counts.zero, 1⟩, none, []⟩
    | (none, meter) => branch settings problem meter

def solve (settings : SearchSettings) (problem : Problem) : Except Fault Outcome :=
  (explore settings problem).map (·.outcome)

end Branching

end StackingPlanner
