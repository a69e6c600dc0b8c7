import StackingPlanner.PlanCheck

/-!
# Plans as they are given

A document may count the steps of a plan by values of any kind, and it may
leave a step without an action.  Such a plan is carried out as far as its
steps can be compared: an action occurs at the step that its label equals.
The main statements say that nothing changes for a plan in the usual form:
its diagnosis and its timeline are those of the plan itself.
-/

namespace StackingPlanner

instance : StepLabel Value := ⟨fun n => .whole n, (·.countOn 1), id⟩

/-- Choices with their steps, which are values of any kind. -/
structure GivenPlan where
  steps : List (Value × Choice)

def GivenPlan.ofStep (step : Int × Action) : Value × Choice := (.whole step.1, some step.2)

def GivenPlan.ofPlan (p : Plan) : GivenPlan := ⟨p.steps.map GivenPlan.ofStep⟩

namespace GivenPlan

/-- The steps with their actions, if each has one. -/
def actions? (p : GivenPlan) : Except Misuse (List (Value × Action)) :=
  p.steps.mapM (fun step =>
    match step.2 with
    | some action => .ok (step.1, action)
    | none => .error .noEntries)

/-- A given plan as text, one step a line. -/
def text (p : GivenPlan) : String :=
  if p.steps.isEmpty then Plan.emptyText
  else
    String.intercalate "\n"
      (p.steps.map (fun step => step.1.plain ++ ": " ++ (step.2.map Action.name).getD "None"))

/--
Check that steps ascend from above a previous one and lie before a horizon.
Only numbers can be compared; an undefined one is never found to be out of
its place.
-/
def checkSteps (horizon : Nat) (previous : Value) :
    List (Value × Choice) → Except Misuse (Option (StepFault Value))
  | [] => .ok none
  | (step, choice) :: rest => do
      let n ← step.takeNumber
      let before ← previous.takeNumber
      if n ≤ before then return some (.notAfter step previous)
      else if Number.whole horizon ≤ n then return some (.tooLate choice step horizon)
      else checkSteps horizon step rest

def stepFault? (p : GivenPlan) (horizon : Nat) : Except Misuse (Option (StepFault Value)) :=
  checkSteps horizon (.whole 0) p.steps

/-- What is chosen at a step: the last choice whose label equals it. -/
def choiceAt (p : GivenPlan) (step : Int) : Choice :=
  (p.steps.reverse.find? (fun entry =>
    entry.1.number?.any (·.equals (.whole step)))).bind (·.2)

end GivenPlan

namespace Problem

/-- The first reason for which a given plan does not solve a problem. -/
def diagnoseGiven (problem : Problem) (plan : GivenPlan) :
    Except Misuse (Option (PlanFault Value)) := do
  match ← plan.stepFault? problem.horizon with
  | some fault => return some (.steps fault)
  | none =>
      return problem.diagnoseSteps problem.initial
        (if problem.isGoal problem.initial then some (.whole 1) else none) (← plan.actions?)

def simulateGiven (problem : Problem) (plan : GivenPlan) : Except Fault Timeline :=
  match plan.stepFault? problem.horizon with
  | .error misuse => .error misuse
  | .ok (some fault) => .error (Misuse.planSteps fault.message)
  | .ok none => Fault.lift (problem.timelineOf plan.choiceAt)

end Problem

/-! ## Plans in the usual form -/

def StepFault.map {σ τ : Type} (f : σ → τ) : StepFault σ → StepFault τ
  | notAfter step previous => .notAfter (f step) (f previous)
  | tooLate choice step horizon => .tooLate choice (f step) horizon

def PlanFault.map {σ τ : Type} (f : σ → τ) : PlanFault σ → PlanFault τ
  | steps fault => .steps (fault.map f)
  | afterGoal action step state goalStep => .afterGoal action (f step) state (f goalStep)
  | notExecutable action step state missing => .notExecutable action (f step) state missing
  | goalMissed horizon state missing => .goalMissed horizon state missing

namespace Plan

/-- Steps that fit lie above the one before them. -/
theorem lt_of_checkSteps {horizon : Nat} {previous : Int} {steps : List (Int × Action)}
    (fits : checkSteps horizon previous steps = none) : ∀ step ∈ steps, previous < step.1 := by
  induction steps generalizing previous with
  | nil => simp
  | cons step rest ih =>
      simp only [checkSteps] at fits
      split at fits
      · simp at fits
      · rename_i above
        split at fits
        · simp at fits
        · intro other member
          rcases List.mem_cons.1 member with rfl | member
          · omega
          · have := ih fits other member
            omega

/-- Among steps that fit, at most one has a number. -/
theorem find?_reverse_of_checkSteps {horizon : Nat} {previous : Int}
    {steps : List (Int × Action)} (fits : checkSteps horizon previous steps = none) (n : Int) :
    steps.reverse.find? (·.1 = n) = steps.find? (·.1 = n) := by
  induction steps generalizing previous with
  | nil => rfl
  | cons step rest ih =>
      have restFits : checkSteps horizon step.1 rest = none := by
        simp only [checkSteps] at fits
        split at fits
        · simp at fits
        · split at fits
          · simp at fits
          · exact fits
      rw [List.reverse_cons, List.find?_append, ih restFits]
      by_cases found : step.1 = n
      · have absent : rest.find? (fun other => decide (other.1 = n)) = none :=
          List.find?_eq_none.2 (fun other member => by
            have := lt_of_checkSteps restFits other member
            simp
            omega)
        simp [absent, found]
      · simp [found]

end Plan

namespace GivenPlan

theorem checkSteps_ofStep (horizon : Nat) (previous : Int) (steps : List (Int × Action)) :
    checkSteps horizon (.whole previous) (steps.map ofStep) =
      .ok ((Plan.checkSteps horizon previous steps).map (StepFault.map .whole)) := by
  induction steps generalizing previous with
  | nil => rfl
  | cons step rest ih =>
      simp only [List.map_cons, Plan.checkSteps]
      change (if Number.whole step.1 ≤ Number.whole previous then _
        else if Number.whole horizon ≤ Number.whole step.1 then _
        else checkSteps horizon (.whole step.1) (rest.map ofStep)) = _
      simp only [Number.whole_le_whole, ih]
      split
      · rfl
      · split <;> rfl

theorem stepFault?_ofPlan (p : Plan) (horizon : Nat) :
    (ofPlan p).stepFault? horizon = .ok ((p.stepFault? horizon).map (StepFault.map .whole)) :=
  checkSteps_ofStep horizon 0 p.steps

theorem actions?_ofPlan (p : Plan) :
    (ofPlan p).actions? = .ok (p.steps.map (fun step => (Value.whole step.1, step.2))) := by
  simp only [actions?, ofPlan]
  induction p.steps with
  | nil => rfl
  | cons step rest ih =>
      rw [List.map_cons, List.mapM_cons, ih]
      rfl

theorem choiceAt_ofPlan {p : Plan} {horizon : Nat} (fits : p.stepFault? horizon = none)
    (n : Int) : (ofPlan p).choiceAt n = p.choiceAt n := by
  have same : (fun entry : Value × Choice => entry.1.number?.any (·.equals (.whole n))) ∘ ofStep =
      fun step => decide (step.1 = n) := by
    funext step
    simp [ofStep, Value.number?, Value.whole, Number.equals_whole]
  simp only [choiceAt, Plan.choiceAt, ofPlan, ← List.map_reverse, List.find?_map, same,
    Plan.find?_reverse_of_checkSteps fits]
  cases p.steps.find? (fun step => decide (step.1 = n)) <;> rfl

end GivenPlan

namespace Problem

theorem diagnoseSteps_map (problem : Problem) (s : State) (goalStep : Option Int)
    (steps : List (Int × Action)) :
    problem.diagnoseSteps s (goalStep.map Value.whole)
        (steps.map (fun step => (Value.whole step.1, step.2))) =
      (problem.diagnoseSteps s goalStep steps).map (PlanFault.map .whole) := by
  induction steps generalizing s goalStep with
  | nil => cases goalStep <;> rfl
  | cons step rest ih =>
      cases goalStep with
      | some held => rfl
      | none =>
          simp only [List.map_cons, Option.map_none, diagnoseSteps]
          split
          · rw [← ih]
            split <;> rfl
          · rfl

/-- A plan in the usual form has the diagnosis of the plan. -/
theorem diagnoseGiven_ofPlan (problem : Problem) (plan : Plan) :
    problem.diagnoseGiven (.ofPlan plan) =
      .ok ((problem.diagnose plan).map (PlanFault.map .whole)) := by
  simp only [diagnoseGiven, diagnose, GivenPlan.stepFault?_ofPlan, GivenPlan.actions?_ofPlan]
  cases plan.stepFault? problem.horizon with
  | some fault => rfl
  | none =>
      change Except.ok _ = _
      rw [← diagnoseSteps_map]
      split <;> rfl

theorem simulateGiven_ofPlan (problem : Problem) (plan : Plan) :
    problem.simulateGiven (.ofPlan plan) = problem.simulate plan := by
  simp only [simulateGiven, simulate, GivenPlan.stepFault?_ofPlan]
  cases fits : plan.stepFault? problem.horizon with
  | some fault => cases fault <;> rfl
  | none =>
      rw [Option.map_none, funext (GivenPlan.choiceAt_ofPlan fits)]

end Problem

end StackingPlanner
