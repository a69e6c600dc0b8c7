import StackingPlanner.Proofs.Number.Share
import StackingPlanner.Proofs.Planner.Discipline
import StackingPlanner.Proofs.PlanCheck.Played
import StackingPlanner.Reasoning

/-!
# The checkers confirm what a planner finds

The search stops at the goal, the diagnosis skips the steps at which nothing is
done, and the simulation looks up each step by its number with all checks.  On
the plan of a success all three agree, so an answer that reports a plan always
reports it as valid.
-/

namespace StackingPlanner

/-! ## The share of a budget -/

structure Budget.NonNegative (b : Budget) : Prop where
  nodes : ∀ most, b.maxNodes = some most → most.isBelow (.whole 0) = false
  time : ∀ limit, b.timeLimit = some limit → limit.isBelow (.whole 0) = false

theorem Budget.not_below_of_readBound {negative : Value → Failure} {value : Value}
    {bound : Option Number} (read : readBound negative value = .ok bound) :
    ∀ n, bound = some n → n.isBelow (.whole 0) = false := by
  unfold readBound at read
  split at read
  · cases read
    rintro n ⟨⟩
  · split at read
    · cases read
    · split at read
      · cases read
      · rename_i n _ above
        cases read
        rintro _ ⟨⟩
        exact Bool.eq_false_iff.mpr above

theorem Budget.nonNegative_of_make {maxNodes timeLimit : Value} {b : Budget}
    (made : Budget.make maxNodes timeLimit = .ok b) : b.NonNegative := by
  unfold Budget.make at made
  cases nodes : readBound .negativeNodes maxNodes with
  | error fault => rw [nodes] at made; cases made
  | ok most =>
      cases time : readBound .negativeTime timeLimit with
      | error fault => rw [nodes, time] at made; cases made
      | ok limit =>
          rw [nodes, time] at made
          cases made
          exact ⟨not_below_of_readBound nodes, not_below_of_readBound time⟩

namespace Planner

/-- The share of the budget that a finding has used lies between zero and one. -/
theorem isShare_budgetShare {planner : Planner} {finding : Finding}
    (bounded : planner.settings.budget.NonNegative) (counted : 0 ≤ finding.statistics.nodes) :
    Number.IsShare (.real (planner.budgetShare finding)) := by
  unfold budgetShare
  split
  · exact Number.isShare_one
  · exact Number.isShare_zero
  · rename_i most given _
    split
    · exact Number.isShare_zero
    · rename_i nonzero
      dsimp only
      split
      · rename_i below
        have unsigned := Number.isUnsigned_ratio counted (bounded.nodes most given)
          (Bool.eq_false_iff.mpr nonzero)
        exact Number.isShare_of_lt_one unsigned below
      · exact Number.isShare_one

end Planner

theorem Answer.check_eq {a : Answer} (confidence : a.confidence.IsShare) (cost : a.cost.IsShare) :
    a.check = .ok a := by
  have passes : ∀ (name : String) (n : Number), n.IsShare →
      checkShare name (.number n) = .ok () := by
    intro name n share
    simp [checkShare, Value.takeNumber, Value.number?, share.low, share.high, bind, Except.bind]
    rfl
  simp only [check, checkShares, passes _ _ confidence, passes _ _ cost, bind, Except.bind]
  rfl

/-- An answer that reports a plan, and that the plan is valid beyond doubt. -/
structure Answer.ReportsValid (a : Answer) : Prop where
  success : a.success = true
  confidence : a.confidence = .real 1
  valid : a.metadata.get? "is_valid" = some (.bool true)
  faultless : a.metadata.get? "validation_error" = some .null

namespace Planner

variable {planner : Planner} {finding : Finding} {t : Timeline}

/-- The answer that is given when a problem was solved, or could not be. -/
def answerOn (planner : Planner) (query : Value) (explained : Bool) :
    Except Fault Finding → Except Fault Answer
  | .error (.failure failure) =>
      if failure.report.isConfiguration then .ok (answerFailure failure) else .error failure
  | .error (.misuse misuse) => .error misuse
  | .ok finding =>
      let proof := if explained then some (Explanation.ofFinding finding query) else none
      match (planner.answerFinding finding proof).check with
      | .ok answer => .ok answer
      | .error misuse => .error misuse

theorem reason_description (planner : Planner) (query : Value) (d : Description)
    (explained : Bool) :
    planner.reason query (.description d) explained =
      planner.answerOn query explained (planner.solveDescription d) := by
  dsimp only [reason, solveSubject]
  cases planner.solveDescription d with
  | error fault => cases fault <;> rfl
  | ok finding => rfl

theorem reportsValid_answerFinding (success : finding.verdict = .success t)
    (faultless : finding.problem.diagnose t.plan = none) (proof : Option Proof) :
    (planner.answerFinding finding proof).ReportsValid := by
  unfold answerFinding
  rw [success]
  dsimp only
  rw [faultless]
  constructor
  case success => rfl
  case confidence => rfl
  case valid => rfl
  case faultless => rfl

theorem cost_answerFinding (planner : Planner) (finding : Finding) (proof : Option Proof) :
    (planner.answerFinding finding proof).cost = .real (planner.budgetShare finding) := by
  unfold answerFinding
  split <;> rfl

theorem answerOn_success (bounded : planner.settings.budget.NonNegative)
    (counted : 0 ≤ finding.statistics.nodes) (success : finding.verdict = .success t)
    (faultless : finding.problem.diagnose t.plan = none) (query : Value) (explained : Bool) :
    ∃ answer, planner.answerOn query explained (.ok finding) = .ok answer ∧
      answer.ReportsValid := by
  let proof := if explained then some (Explanation.ofFinding finding query) else none
  have reports : (planner.answerFinding finding proof).ReportsValid :=
    reportsValid_answerFinding success faultless proof
  have confidence : (planner.answerFinding finding proof).confidence.IsShare := by
    rw [reports.confidence]
    exact Number.isShare_one
  have cost : (planner.answerFinding finding proof).cost.IsShare := by
    rw [cost_answerFinding]
    exact isShare_budgetShare bounded counted
  refine ⟨_, ?_, reports⟩
  change (match (planner.answerFinding finding proof).check with
    | .ok answer => _
    | .error misuse => _) = _
  rw [Answer.check_eq confidence cost]

/--
The checkers confirm every success that a planner returns for a description,
whatever bounds its search, however its threads take their turns and whatever
its clock shows: the plan is valid and without a fault, it is carried out to the
timeline that the search has found, and the goal first holds after the last
action, or at the first step if there is none.  So an answer on the success
always reports the plan as valid, with full confidence.
-/
theorem confirms_of_success {clock : Clock} {d : Description} (room : planner.settings.HasRoom)
    (bounded : planner.settings.budget.NonNegative)
    (returns : planner.ReturnsFor clock d (.ok finding)) (success : finding.verdict = .success t) :
    d.problem = .ok finding.problem ∧ finding.problem.Confirms t ∧
      finding.problem.isSolvedBy t.plan = true ∧
      PlanFault.toValue (finding.problem.diagnose t.plan) = .object [("error", .null)] ∧
      ∀ query explained, ∃ answer, planner.answerOn query explained (.ok finding) = .ok answer ∧
        (planner.solveDescription d = .ok finding →
          planner.reason query (.description d) explained = .ok answer) ∧
        answer.ReportsValid := by
  rcases finding_of_returnsFor room returns with
    ⟨_, _, fails⟩ | ⟨problem, o, states, ends, answers⟩
  · cases fails
  · cases ends
    obtain ⟨accepted, sameScope, sane⟩ := Description.sane_of_problem states
    have said := answers.verdict
    have verdict : o.verdict = .success t := success
    rw [verdict] at said
    obtain ⟨steps, found, rfl⟩ := said
    obtain ⟨play, long⟩ := Schema.leftmost?_play found
    have smooth : problem.schema.Smooth true problem.initial :=
      accepted.smooth (fun _ => ⟨sameScope, sane⟩)
    have confirms := Problem.confirms_of_play smooth play long
    refine ⟨states, confirms, ?_, ?_, fun query explained => ?_⟩
    · change (problem.diagnose _).isNone = true
      rw [confirms.faultless]
      rfl
    · change PlanFault.toValue (problem.diagnose _) = _
      rw [confirms.faultless]
      rfl
    · obtain ⟨answer, answered, reports⟩ :=
        answerOn_success bounded answers.counted success confirms.faultless query explained
      refine ⟨answer, answered, fun solved => ?_, reports⟩
      rw [reason_description, solved, answered]

/-! ## A plan for the lone disc -/

theorem nonNegative_pair : pair.settings.budget.NonNegative :=
  @Budget.nonNegative_of_make .null .null {} rfl

theorem solveDescription_pair :
    ∃ finding t, pair.solveDescription loneDiscDescription = .ok finding ∧
      finding.verdict = .success t := by
  have reachable : (Search.loneDisc.leftmost? Search.loneDiscGoal.toList 4
      Search.loneDiscStart).isSome = true := by
    decide +kernel
  obtain ⟨steps, found⟩ := Option.isSome_iff_exists.mp reachable
  have verdict : (Branching.solve pair.settings Branching.loneDiscProblem).map (·.verdict) =
      .ok (.ofSteps? Search.loneDiscStart
        (Search.loneDisc.leftmost? Search.loneDiscGoal.toList 4 Search.loneDiscStart)) :=
    (Branching.solve_verdict Search.unhindered_loneDisc.toFit).trans
      (Search.unhindered_loneDisc.run Search.unhindered_loneDisc.room.roomy Search.loneDiscGoal
        (by decide : (1 : Int) ≤ 1) (by decide : (1 : Int) ≤ 5)).1
  obtain ⟨outcome, ends, is⟩ := Except.exists_of_map_eq_ok verdict
  have solved : pair.solveDescription loneDiscDescription =
      .ok (conclude Branching.loneDiscProblem outcome) := by
    rw [solveDescription, problem_loneDiscDescription]
    change pair.solve Branching.loneDiscProblem = _
    rw [solve_of_branches (by decide), ends]
    rfl
  exact ⟨_, _, solved, is.trans (congrArg _ found)⟩

theorem confirms_of_success_loneDisc :
    ∃ finding t answer, pair.solveDescription loneDiscDescription = .ok finding ∧
      finding.verdict = .success t ∧ finding.problem.Confirms t ∧
      pair.reason (.text "Where is the disc?") (.description loneDiscDescription) true =
        .ok answer ∧ answer.ReportsValid := by
  obtain ⟨finding, t, solved, success⟩ := solveDescription_pair
  have returns := pair.returnsFor_solveDescription loneDiscDescription
  rw [solved] at returns
  obtain ⟨_, confirms, _, _, answers⟩ :=
    confirms_of_success hasRoom_pair nonNegative_pair returns success
  obtain ⟨answer, _, reasons, reports⟩ := answers (.text "Where is the disc?") true
  exact ⟨finding, t, answer, solved, success, confirms, reasons solved, reports⟩

end Planner

end StackingPlanner
