import StackingPlanner.Proofs.PlanCheck.Played
import StackingPlanner.Proofs.Planner.Discipline
import StackingPlanner.Proofs.Search.Refusals
import StackingPlanner.Proofs.Search.Shortest

/-!
# No valid plan escapes a planner

The actions of a plan without a fault lead to the goal one after another, and as
their steps ascend below the horizon, there are fewer of them than steps.  So the
goal can be reached in time, and a planner that nothing cuts short finds a plan.
That plan is a shortest one, whatever gaps the given plan leaves.
-/

namespace StackingPlanner

namespace Plan

def DrawsOn (p : Plan) (schema : Schema) : Prop := ∀ a ∈ p.actions, a ∈ schema.actions

theorem length_actions (p : Plan) : p.actions.length = p.length := List.length_map _

/-- Steps that ascend from above a step and lie before a horizon are no more than fit between. -/
theorem length_lt_of_checkSteps {horizon : Nat} {previous : Int} {steps : List (Int × Action)}
    (within : previous < horizon) (fits : checkSteps horizon previous steps = none) :
    previous + steps.length < horizon := by
  induction steps generalizing previous with
  | nil => simpa using within
  | cons entry rest ih =>
      rw [checkSteps] at fits
      split at fits
      · cases fits
      · split at fits
        · cases fits
        · have later := ih (by omega) fits
          rw [List.length_cons]
          omega

theorem actions_stepsFrom (first : Nat) (choices : List Choice) :
    (stepsFrom first choices).map (·.2) = choices.filterMap id := by
  induction choices generalizing first with
  | nil => rfl
  | cons choice choices ih =>
      cases choice with
      | none => exact ih (first + 1)
      | some a => exact congrArg (a :: ·) (ih (first + 1))

end Plan

theorem Timeline.length_plan {t : Timeline} {idle : Nat} {actions : List Action}
    (late : t.choices = List.replicate idle none ++ actions.map some) :
    t.plan.length = actions.length := by
  have same : t.plan.steps.map (·.2) = t.choices.filterMap id := Plan.actions_stepsFrom 1 _
  have count := congrArg List.length same
  rw [List.length_map, late] at count
  simpa [Plan.length] using count

namespace Problem

variable {problem : Problem}

/-- Where a diagnosis finds no fault, the actions lead to the goal one after another. -/
theorem plans_of_diagnoseSteps {steps : List (Int × Action)}
    (known : ∀ a ∈ steps.map (·.2), a ∈ problem.schema.actions) {s : State} {held : Int}
    (faultless : problem.diagnoseSteps s (if problem.isGoal s then some held else none) steps =
      none) :
    problem.schema.Plans problem.goal.toList s (steps.map (·.2)) := by
  induction steps generalizing s held with
  | nil =>
      apply Schema.Plans.nil_iff.mpr
      cases met : problem.isGoal s with
      | true => exact met
      | false =>
          rw [met] at faultless
          cases faultless
  | cons entry rest ih =>
      obtain ⟨step, a⟩ := entry
      obtain ⟨here, others⟩ := List.forall_mem_cons.mp known
      cases met : problem.isGoal s with
      | true =>
          rw [met] at faultless
          cases faultless
      | false =>
          rw [met, if_neg Bool.false_ne_true, diagnoseSteps] at faultless
          split at faultless
          · rename_i executable
            exact Schema.Plans.cons_iff.mpr ⟨⟨here, executable⟩, ih others faultless⟩
          · cases faultless

/-- The actions of a valid plan lead to the goal, and there are fewer of them than states. -/
theorem plans_of_isSolvedBy {plan : Plan} (known : plan.DrawsOn problem.schema)
    (valid : problem.isSolvedBy plan = true) :
    problem.schema.Plans problem.goal.toList problem.initial plan.actions ∧
      plan.length ≤ problem.horizon - 1 := by
  have faultless := Option.isNone_iff_eq_none.mp valid
  rw [diagnose] at faultless
  split at faultless
  · cases faultless
  · rename_i fits
    constructor
    · exact plans_of_diagnoseSteps known faultless
    · have positive := problem.horizon_pos
      have count := Plan.length_lt_of_checkSteps (by omega) fits
      rw [Plan.length]
      omega

theorem reaches_of_isSolvedBy {plan : Plan} (known : plan.DrawsOn problem.schema)
    (valid : problem.isSolvedBy plan = true) :
    problem.schema.Reaches problem.goal.toList problem.initial (problem.horizon - 1) := by
  obtain ⟨plans, within⟩ := plans_of_isSolvedBy known valid
  apply plans.reaches
  rw [plan.length_actions]
  exact within

/-- What the plain search finds is no longer than any valid plan. -/
theorem length_le_of_isSolvedBy (accepted : problem.schema.Accepted) {plan : Plan}
    (known : plan.DrawsOn problem.schema) (valid : problem.isSolvedBy plan = true) {steps : Steps}
    (found : problem.schema.leftmost? problem.goal.toList (problem.horizon - 1) problem.initial =
      some steps) :
    (Timeline.ofSteps problem.initial steps).plan.length ≤ plan.length := by
  obtain ⟨actions, first, _, choices⟩ := Schema.leftmost?_firstPlan accepted found
  have late : (Timeline.ofSteps problem.initial steps).choices =
      List.replicate (problem.horizon - 1 - actions.length) none ++ actions.map some := choices
  calc (Timeline.ofSteps problem.initial steps).plan.length
      = actions.length := Timeline.length_plan late
    _ ≤ plan.actions.length := first.least _ (plans_of_isSolvedBy known valid).1
    _ = plan.length := plan.length_actions

end Problem

namespace Planner

variable {planner : Planner} {clock : Clock} {d : Description} {problem : Problem}

/--
No plan of actions of the schema that the diagnosis accepts escapes a planner.
Whatever turns its threads take, whatever its clock shows and whatever its table
forgets, a planner without bounds finds a plan with at most as many actions; and
if a planner, with bounds or without, finds that there is no plan, every plan of
actions of the schema has a fault.
-/
theorem finds_valid_plans (room : planner.settings.HasRoom) (states : d.problem = .ok problem)
    (clock : Clock) :
    (∃ result, planner.Returns clock problem result) ∧
      ∀ result, planner.Returns clock problem result → ∃ finding, result = .ok finding ∧
        (planner.settings.budget.unlimited = true →
          ∀ plan : Plan, plan.DrawsOn problem.schema → problem.isSolvedBy plan = true →
            ∃ t, finding.verdict = .success t ∧ t.plan.length ≤ plan.length) ∧
        (finding.verdict = .noPlan →
          ∀ plan : Plan, plan.DrawsOn problem.schema → problem.isSolvedBy plan = false) := by
  obtain ⟨accepted, sameScope, sane⟩ := Description.sane_of_problem states
  refine ⟨planner.exists_returns clock problem, fun result returns => ?_⟩
  obtain ⟨outcome, rfl, answers⟩ :=
    answers_of_returns accepted ⟨fun _ => sameScope, fun _ => sane⟩ room returns
  have said := answers.verdict
  have excused := excused_of_returns returns
  refine ⟨_, rfl, fun unbounded plan known valid => ?_, fun none plan known => ?_⟩
  · have reaches := Problem.reaches_of_isSolvedBy known valid
    rw [← Schema.leftmost?_isSome_iff] at reaches
    change ∃ t, outcome.verdict = .success t ∧ _
    cases verdict : outcome.verdict with
    | success t =>
        rw [verdict] at said
        obtain ⟨steps, found, rfl⟩ := said
        exact ⟨_, rfl, Problem.length_le_of_isSolvedBy accepted known valid found⟩
    | noPlan =>
        rw [verdict] at said
        rw [Option.isSome_iff_ne_none] at reaches
        exact absurd said reaches
    | aborted reason =>
        exact absurd (excused reason verdict) (Budget.not_imposes_of_unlimited unbounded reason)
  · have none : outcome.verdict = .noPlan := none
    rw [none] at said
    have unreachable := Schema.leftmost?_eq_none_iff.mp said
    rw [← Bool.not_eq_true]
    exact fun valid => unreachable (Problem.reaches_of_isSolvedBy known valid)

/-! ## A detour of the lone disc -/

/-- The disc is put back on its peg once before it is moved to the other one. -/
def loneDiscDetour : Plan :=
  let disc : Member := ⟨"a", ⟨"disc", .one, OrderedSet.ofList ["disc"], true, true⟩⟩
  let peg (name : String) : Member :=
    ⟨name, ⟨"peg", .one, OrderedSet.ofList ["disc"], false, true⟩⟩
  ⟨[(1, Operator.pickUp.ground disc (peg "p")), (2, Operator.putDown.ground disc (peg "p")),
    (3, Operator.pickUp.ground disc (peg "p")), (4, Operator.putDown.ground disc (peg "q"))]⟩

theorem finds_valid_plans_loneDisc :
    loneDiscDetour.DrawsOn Branching.loneDiscProblem.schema ∧
      Branching.loneDiscProblem.isSolvedBy loneDiscDetour = true ∧
      ∃ finding t, pair.solve Branching.loneDiscProblem = .ok finding ∧
        finding.verdict = .success t ∧ t.plan.length ≤ loneDiscDetour.length := by
  have known : loneDiscDetour.DrawsOn Branching.loneDiscProblem.schema := by
    unfold Plan.DrawsOn
    decide +kernel
  have valid : Branching.loneDiscProblem.isSolvedBy loneDiscDetour = true := by decide +kernel
  obtain ⟨_, finds⟩ := finds_valid_plans hasRoom_pair problem_loneDiscDescription .still
  obtain ⟨finding, solved, succeeds, _⟩ := finds _ (pair.returns_solve _)
  obtain ⟨t, success, short⟩ := succeeds rfl loneDiscDetour known valid
  exact ⟨known, valid, finding, t, solved, success, short⟩

end Planner

end StackingPlanner
