import StackingPlanner.Explanation
import StackingPlanner.Proof.Document

/-!
# Answers to queries

A query about a problem is answered in words, with a confidence, the share of
the budget that was used and, if it is wanted, an explanation.  A description
that makes no sense is an answer, too.
-/

namespace StackingPlanner

structure Answer where
  success : Bool
  answer : String := ""
  confidence : Number := .real 0
  proof : Option Proof := none
  metadata : Entries := []
  strategy : String := ""
  cost : Number := .real 0

namespace Answer

def checkShare (name : String) (value : Value) : Except Misuse Unit := do
  let n ← value.takeNumber
  if !(Number.isAtMost (.whole 0) n && n.isAtMost (.whole 1)) then throw (.share name value)

def checkShares (confidence cost : Value) : Except Misuse Unit := do
  checkShare "confidence" confidence
  checkShare "computation_cost" cost

def check (a : Answer) : Except Misuse Answer := do
  checkShares (.number a.confidence) (.number a.cost)
  return a

def toValue (a : Answer) : Except Misuse Value := do
  let proof ← a.proof.mapM Proof.toValue
  return .object
    [("success", .bool a.success), ("answer", .text a.answer), ("confidence", .number a.confidence),
      ("metadata", .object a.metadata), ("strategy_used", .text a.strategy),
      ("computation_cost", .number a.cost), ("proof_tree", proof.getD .null)]

end Answer

inductive Subject where
  | nothing
  | description (d : Description)
  | problem (p : Problem)

namespace Planner

def solveSubject (planner : Planner) : Subject → Option (Except Fault Finding)
  | .nothing => none
  | .description d => some (planner.solveDescription d)
  | .problem p => some (planner.solve p)

/-- The share of the node budget that a finding has used. -/
def budgetShare (planner : Planner) (finding : Finding) : Float :=
  match finding.verdict, planner.settings.budget.maxNodes with
  | .aborted _, _ => 1
  | _, none => 0
  | _, some most =>
      if most.equals (.whole 0) then 0
      else
        let share := Number.ratio finding.statistics.nodes most
        if share < 1 then share else 1

def answerNothing : Answer where
  success := false
  answer := "No planning problem provided in context"
  strategy := "horizon_dfs"
  metadata := [("error", .text "missing_planning_problem")]

/-- The answer on a description that makes no sense. -/
def answerFailure (failure : Failure) : Answer where
  success := false
  answer := failure.report.summary
  strategy := "horizon_dfs"
  metadata :=
    [("error", .text "configuration_error"), ("details", .text failure.report.text)]

/-- The entries on the plan of a success, which is checked once more. -/
def planEntries (finding : Finding) (plan : Plan) (fault : Option (PlanFault Int)) : Entries :=
  [("plan", Value.texts plan.lines), ("plan_length", .whole plan.length),
    ("goal_reached_at", Value.orNull (fun n : Nat => .whole n) finding.goalReachedAt),
    ("is_valid", .bool fault.isNone),
    ("validation_error", Value.orNull (fun f : PlanFault Int => .text f.message) fault)]

def answerFinding (planner : Planner) (finding : Finding) (proof : Option Proof) : Answer :=
  match finding.verdict with
  | .success t =>
      let fault := finding.problem.diagnose t.plan
      { success := true
        answer :=
          "Plan with " ++ toString t.plan.length ++ " actions: " ++
            Text.quotedList (t.plan.actions.map Action.name)
        confidence := .real (if fault.isNone then 1 else Number.quotient 8 10)
        proof
        strategy := planner.strategy
        cost := .real (planner.budgetShare finding)
        metadata := finding.entries ++ planEntries finding t.plan fault }
  | .aborted reason =>
      { success := false
        answer := "Search aborted (" ++ reason.text ++ ")"
        proof
        strategy := planner.strategy
        cost := .real (planner.budgetShare finding)
        metadata := finding.entries ++ [("abort_reason", .text reason.text)] }
  | .noPlan =>
      { success := false
        answer := "No plan within horizon " ++ toString finding.problem.horizon
        proof
        strategy := planner.strategy
        cost := .real (planner.budgetShare finding)
        metadata := finding.entries }

def reason (planner : Planner) (query : Value) (subject : Subject) (explained : Bool) :
    Except Fault Answer :=
  match planner.solveSubject subject with
  | none => .ok answerNothing
  | some (.error (.failure failure)) =>
      if failure.report.isConfiguration then .ok (answerFailure failure) else .error failure
  | some (.error (.misuse misuse)) => .error misuse
  | some (.ok finding) =>
      let proof := if explained then some (Explanation.ofFinding finding query) else none
      match (planner.answerFinding finding proof).check with
      | .ok answer => .ok answer
      | .error misuse => .error misuse

end Planner

end StackingPlanner
