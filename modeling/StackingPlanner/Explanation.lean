import StackingPlanner.Planner
import StackingPlanner.Proof.Basic

/-!
# Explanations

The explanation of a finding is a proof.  It starts from the initial state and
the goal.  For a plan it has one step for each choice of the timeline, each of
which depends on the one before it, and ends with the goal; otherwise it ends
with the reason why there is no plan.
-/

namespace StackingPlanner

namespace Explanation

def initialId : String := "plan_initial_state"

def goalId : String := "plan_goal"

def choiceId (step : Nat) : String := "plan_step_" ++ toString step

def literalTexts (literals : OrderedSet Literal) : List String :=
  sorted (literals.toList.map Literal.text)

def initialStep (problem : Problem) : ProofStep where
  id := .text initialId
  kind := .premise
  output := .text ("State 1: " ++ problem.initial.line)
  explanation := .text "Initial state of the planning problem"
  metadata := .object [("state", Value.texts (Timeline.factTexts problem.initial))]

def goalStep (problem : Problem) : ProofStep where
  id := .text goalId
  kind := .premise
  output := .text ("Goal: " ++ String.intercalate ", " (literalTexts problem.goal))
  explanation := .text ("Goal literals that must hold at step " ++ toString problem.horizon)
  metadata := .object [("horizon", .whole problem.horizon)]

def choiceStep (step : Nat) (parent : String) : Choice → ProofStep
  | none =>
      { id := .text (choiceId step)
        kind := .inertia
        time := .whole step
        output := .text ("State " ++ toString (step + 1) ++ " = state " ++ toString step)
        explanation := .text ("Step " ++ toString step ++ ": idle, every fluent persists")
        parents := Value.texts [parent] }
  | some action =>
      { id := .text (choiceId step)
        kind := .inference
        time := .whole step
        inputs := Value.texts (literalTexts action.preconditions)
        rule := .text action.name
        output := .text (String.intercalate ", " (literalTexts action.effects))
        explanation := .text ("Step " ++ toString step ++ ": " ++ action.name)
        parents := Value.texts [parent] }

/-- The steps for choices from a step on, after the step of a parent. -/
def choiceSteps (step : Nat) (parent : String) : List Choice → List ProofStep
  | [] => []
  | choice :: rest => choiceStep step parent choice :: choiceSteps (step + 1) (choiceId step) rest

def lastId (choices : Nat) : String := if choices = 0 then initialId else choiceId choices

def achievedStep (finding : Finding) (t : Timeline) : ProofStep where
  id := .text "plan_goal_achieved"
  kind := .conclusion
  time := .whole finding.problem.horizon
  output := .text ("Goal holds at step " ++ toString finding.problem.horizon)
  explanation := .text
    ("Plan with " ++ toString t.plan.length ++ " actions reaches the goal at step " ++
      (Value.orNull (fun n : Nat => .whole n) finding.goalReachedAt).display)
  parents := Value.texts [lastId t.choices.length, goalId]
  metadata := .object [("plan_length", .whole t.plan.length)]

def failureReason (finding : Finding) : String :=
  match finding.verdict with
  | .aborted reason => "search aborted (" ++ reason.text ++ ")"
  | _ => "no plan reaches the goal at step " ++ toString finding.problem.horizon

/-- The contradiction that stands for a plan that was not found. -/
def failedStep (finding : Finding) : ProofStep where
  id := .text "plan_failed"
  kind := .contradiction
  output := .text finding.verdict.text
  explanation := .text ("Planning failed: " ++ failureReason finding)
  parents := Value.texts [initialId, goalId]
  metadata := finding.statistics.toValue

def outcomeSteps (finding : Finding) : List ProofStep :=
  match finding.timeline? with
  | some t => choiceSteps 1 initialId t.choices ++ [achievedStep finding t]
  | none => [failedStep finding]

def ofFinding (finding : Finding) (query : Value) : Proof where
  query := query
  steps := [initialStep finding.problem, goalStep finding.problem] ++ outcomeSteps finding
  metadata :=
    [("planner", .text "HorizonPlanner"), ("algorithm", .text "depth-first, idle first"),
      ("status", .text finding.verdict.text), ("search_stats", finding.statistics.toValue)]

/-- The explanation of a finding; a query that does not count as one is put as `solve`. -/
def explain (finding : Finding) (query : Value) : Proof :=
  ofFinding finding (if query.counts then query else .text "solve")

end Explanation

end StackingPlanner
