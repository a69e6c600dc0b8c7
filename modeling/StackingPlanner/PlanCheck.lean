import StackingPlanner.Plan
import StackingPlanner.Problem

/-!
# Checking plans

A plan is carried out step by step, and nothing occurs at the steps that it
does not mention.  A diagnosis names the first reason for which a plan does
not solve a problem.
-/

namespace StackingPlanner

/-- What the steps of a plan are counted by. -/
class StepLabel (σ : Type) where
  /-- The label of a step that is known by its number. -/
  ofNat : Nat → σ
  /-- The label of the step after. -/
  next : σ → σ
  /-- A label as a document value. -/
  toValue : σ → Value

instance : StepLabel Int := ⟨Int.ofNat, (· + 1), .whole⟩

/-- A label as it stands in a message; labels are taken to be ones that can be shown. -/
def StepLabel.text {σ : Type} [StepLabel σ] (step : σ) : String := (toValue step).plain

inductive StepFault (σ : Type) where
  | notAfter (step previous : σ)
  | tooLate (choice : Choice) (step : σ) (horizon : Nat)

def StepFault.message {σ : Type} [StepLabel σ] : StepFault σ → String
  | notAfter step previous =>
      "Step " ++ StepLabel.text step ++ " is not after step " ++ StepLabel.text previous
  | tooLate choice step horizon =>
      "Action " ++ (choice.map Action.name).getD "None" ++ " at step " ++ StepLabel.text step ++
        " does not fit before horizon " ++ toString horizon

inductive PlanFault (σ : Type) where
  | steps (fault : StepFault σ)
  | afterGoal (action : Action) (step : σ) (state : State) (goalStep : σ)
  | notExecutable (action : Action) (step : σ) (state : State) (missing : List Literal)
  | goalMissed (horizon : Nat) (state : State) (missing : List Literal)

namespace PlanFault

variable {σ : Type}

def message [StepLabel σ] : PlanFault σ → String
  | steps fault => fault.message
  | afterGoal action step _ goalStep =>
      "Action " ++ action.name ++ " at step " ++ StepLabel.text step ++
        " after the goal held at step " ++ StepLabel.text goalStep
  | notExecutable action step _ missing =>
      "Action " ++ action.name ++ " not executable at step " ++ StepLabel.text step ++
        ": requires " ++ Text.quotedList (missing.map Literal.text)
  | goalMissed horizon _ missing =>
      "Goal does not hold at step " ++ toString horizon ++ ". Missing: " ++
        Text.quotedList (missing.map Literal.text)

/-- The step at which a plan fails. -/
def step? [StepLabel σ] : PlanFault σ → Option σ
  | steps _ => none
  | afterGoal _ step _ _ => some step
  | notExecutable _ step _ _ => some step
  | goalMissed horizon _ _ => some (StepLabel.ofNat horizon)

def action? : PlanFault σ → Option Action
  | afterGoal action _ _ _ => some action
  | notExecutable action _ _ _ => some action
  | _ => none

def missing : PlanFault σ → List Literal
  | notExecutable _ _ _ missing => missing
  | goalMissed _ _ missing => missing
  | _ => []

def state? : PlanFault σ → Option State
  | steps _ => none
  | afterGoal _ _ state _ => some state
  | notExecutable _ _ state _ => some state
  | goalMissed _ state _ => some state

/-- The step at which the goal held before its time. -/
def goalStep? : PlanFault σ → Option σ
  | afterGoal _ _ _ goalStep => some goalStep
  | _ => none

/-- A diagnosis as a document value; a plan without a fault has no error. -/
def toValue [StepLabel σ] : Option (PlanFault σ) → Value
  | none => .object [("error", .null)]
  | some fault =>
      .object
        [("failed_at", Value.orNull StepLabel.toValue fault.step?),
          ("failed_action", Value.orNull (fun a => .text a.name) fault.action?),
          ("missing_preconditions", Value.texts (fault.missing.map Literal.text)),
          ("state_before", Value.orNull (fun s => .text s.line) fault.state?),
          ("goal_reached_at", Value.orNull StepLabel.toValue fault.goalStep?),
          ("error", .text fault.message)]

end PlanFault

namespace Plan

/-- Check that steps ascend from above a previous one and lie before a horizon. -/
def checkSteps (horizon : Nat) (previous : Int) : List (Int × Action) → Option (StepFault Int)
  | [] => none
  | (step, action) :: rest =>
      if step ≤ previous then some (.notAfter step previous)
      else if horizon ≤ step then some (.tooLate (some action) step horizon)
      else checkSteps horizon step rest

def stepFault? (p : Plan) (horizon : Nat) : Option (StepFault Int) := checkSteps horizon 0 p.steps

def choiceAt (p : Plan) (step : Int) : Choice := (p.steps.find? (·.1 = step)).map (·.2)

end Plan

namespace Problem

/-- Carry out the first fault-free steps of a plan, given where and whether the goal held before. -/
def diagnoseSteps {σ : Type} [StepLabel σ] (problem : Problem) (s : State)
    (goalStep : Option σ) : List (σ × Action) → Option (PlanFault σ)
  | [] =>
      match goalStep with
      | some _ => none
      | none => some (.goalMissed problem.horizon s (s.missing problem.goal.toList))
  | (step, action) :: rest =>
      match goalStep with
      | some held => some (.afterGoal action step s held)
      | none =>
          if action.isExecutable s then
            let next := s.after (some action)
            diagnoseSteps problem next
              (if problem.isGoal next then some (StepLabel.next step) else none) rest
          else some (.notExecutable action step s (action.missing s))

/-- The first reason for which a plan does not solve a problem. -/
def diagnose (problem : Problem) (plan : Plan) : Option (PlanFault Int) :=
  match plan.stepFault? problem.horizon with
  | some fault => some (.steps fault)
  | none =>
      diagnoseSteps problem problem.initial
        (if problem.isGoal problem.initial then some 1 else none) plan.steps

def isSolvedBy (problem : Problem) (plan : Plan) : Bool := (problem.diagnose plan).isNone

/-- What is chosen from a step on, for a number of steps, each with the state after it. -/
def follow (problem : Problem) (choiceAt : Int → Choice) (s : State) (step : Int) :
    Nat → Except Failure (List (Choice × State))
  | 0 => .ok []
  | remaining + 1 => do
      let choice := choiceAt step
      let next ← problem.schema.advance true s choice (.whole step)
      return (choice, next) :: (← follow problem choiceAt next (step + 1) remaining)

/-- The timeline up to the horizon of what is chosen at each step. -/
def timelineOf (problem : Problem) (choiceAt : Int → Choice) : Except Failure Timeline := do
  let steps ← problem.follow choiceAt problem.initial 1 (problem.horizon - 1)
  return Timeline.ofSteps problem.initial steps

/-- The timeline of a plan whose steps fit and whose actions are executable. -/
def simulate (problem : Problem) (plan : Plan) : Except Fault Timeline :=
  match plan.stepFault? problem.horizon with
  | some fault => .error (Misuse.planSteps fault.message)
  | none =>
      Fault.lift (problem.timelineOf plan.choiceAt)

end Problem

end StackingPlanner
