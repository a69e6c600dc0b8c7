import StackingPlanner.Proofs.Search.Pool
import StackingPlanner.Proofs.Search.Workload

/-!
# What a search by branches spends

Without tables a search by branches spends on each branch what a search without
branches spends behind the same choice.  It differs in what it does at the first
state: it tries all the choices there before any of their branches is searched,
and it does not count the first state as given up when all of them have failed.
-/

namespace StackingPlanner

namespace Branching

variable {workers : Nat} {settings : SearchSettings} {problem : Problem}

/-- The outcome of a branch that is searched without a table, beside the plain search. -/
structure Explores (settings : SearchSettings) (problem : Problem) (s : State) (o : Outcome) :
    Prop where
  verdict : o.verdict = .ofSteps? s ((task settings problem).plain? (problem.horizon - 2) s)
  spent : ∀ e : Expense,
    e.spent o.statistics = (task settings problem).effort e (problem.horizon - 2) s
  deadEndHits : o.statistics.deadEndHits = 0
  within : o.statistics.maxStep ≤ problem.horizon
  deepest : s.satisfies problem.goal.toList = false → o.statistics.maxStep = problem.horizon

/--
What branches add to the statistics before them: their visits and backtracks,
and the transitions in them, but not those that lead to them.
-/
structure Adds (settings : SearchSettings) (problem : Problem) (choices : List Choice)
    (statistics : Statistics) (verdict : Verdict) (total : Statistics) : Prop where
  deadEndHits : total.deadEndHits = statistics.deadEndHits
  deeper : statistics.maxStep ≤ total.maxStep
  within : total.maxStep ≤ max statistics.maxStep problem.horizon
  deepest : ∀ choice ∈ choices.head?,
    (problem.initial.after choice).satisfies problem.goal.toList = false →
      (problem.horizon : Int) ≤ total.maxStep
  spent : verdict = .noPlan ∧
      (∀ e : Expense,
        e.spent total + choices.length * e.price .transitions + e.price .backtracks =
          e.spent statistics +
            (task settings problem).effortAfter e (problem.horizon - 2) problem.initial choices) ∨
    ∃ left choice right steps, choices = left ++ choice :: right ∧
      verdict = .success
        (Timeline.ofSteps problem.initial ((choice, problem.initial.after choice) :: steps)) ∧
      ∀ e : Expense,
        e.spent total + (left.length + 1) * e.price .transitions =
          e.spent statistics +
            (task settings problem).effortAfter e (problem.horizon - 2) problem.initial choices

section Adds

variable {s t total : Statistics} {o : Outcome} {choice : Choice} {choices : List Choice}
  {verdict : Verdict}

theorem adds_nil (settings : SearchSettings) (problem : Problem) (s : Statistics) :
    Adds settings problem [] s .noPlan s where
  deadEndHits := rfl
  deeper := Int.le_refl _
  within := Int.le_max_left _ _
  deepest := nofun
  spent := .inl ⟨rfl, fun e => by simp [SearchTask.effortAfter_nil]⟩

/-- After a branch that succeeds no other one counts. -/
theorem Explores.adds (explores : Explores settings problem (problem.initial.after choice) o)
    {steps : Steps}
    (found : (task settings problem).plain? (problem.horizon - 2) (problem.initial.after choice) =
      some steps) (choices : List Choice) (s : Statistics) :
    Adds settings problem (choice :: choices) s
      (.success (Timeline.ofSteps problem.initial ((choice, problem.initial.after choice) :: steps)))
      (s.merge o.statistics) where
  deadEndHits := by
    change s.deadEndHits + o.statistics.deadEndHits = s.deadEndHits
    rw [explores.deadEndHits, Int.add_zero]
  deeper := Int.le_max_left _ _
  within := Int.max_le.mpr ⟨Int.le_max_left _ _,
    Int.le_trans explores.within (Int.le_max_right _ _)⟩
  deepest := by
    rintro _ ⟨⟩ unmet
    exact Int.le_trans (Int.le_of_eq (explores.deepest unmet).symm) (Int.le_max_right _ _)
  spent := by
    refine .inr ⟨[], choice, choices, steps, rfl, rfl, fun e => ?_⟩
    have finds : (task settings problem).finds (problem.horizon - 2)
        (problem.initial.after choice) = true := by
      rw [SearchTask.finds, found]
      rfl
    rw [SearchTask.effortAfter_cons, if_pos finds, e.spent_merge, explores.spent]
    simp
    omega

theorem Explores.adds_cons (explores : Explores settings problem (problem.initial.after choice) o)
    (fails : (task settings problem).Fails (problem.initial.after choice) (problem.horizon - 2))
    (adds : Adds settings problem choices (s.merge o.statistics) verdict total) :
    Adds settings problem (choice :: choices) s verdict total where
  deadEndHits := by
    rw [adds.deadEndHits]
    change s.deadEndHits + o.statistics.deadEndHits = s.deadEndHits
    rw [explores.deadEndHits, Int.add_zero]
  deeper := Int.le_trans (Int.le_max_left _ _) adds.deeper
  within := by
    refine Int.le_trans adds.within (Int.max_le.mpr ⟨?_, Int.le_max_right _ _⟩)
    exact Int.max_le.mpr ⟨Int.le_max_left _ _, Int.le_trans explores.within (Int.le_max_right _ _)⟩
  deepest := by
    rintro _ ⟨⟩ unmet
    have here : (problem.horizon : Int) ≤ (s.merge o.statistics).maxStep :=
      Int.le_trans (Int.le_of_eq (explores.deepest unmet).symm) (Int.le_max_right _ _)
    exact Int.le_trans here adds.deeper
  spent := by
    have finds := SearchTask.finds_eq_false_iff.mpr fails
    have effort : ∀ e : Expense,
        (task settings problem).effortAfter e (problem.horizon - 2) problem.initial
            (choice :: choices) =
          e.price .transitions + e.spent o.statistics +
            (task settings problem).effortAfter e (problem.horizon - 2) problem.initial
              choices := by
      intro e
      rw [SearchTask.effortAfter_cons, finds, if_neg Bool.false_ne_true, explores.spent]
    rcases adds.spent with ⟨none, spent⟩ | ⟨left, later, right, steps, split, found, spent⟩
    · refine .inl ⟨none, fun e => ?_⟩
      have spent := spent e
      rw [e.spent_merge] at spent
      rw [effort, List.length_cons, Int.natCast_succ, Int.add_mul, Int.one_mul]
      omega
    · refine .inr ⟨choice :: left, later, right, steps, congrArg _ split, found, fun e => ?_⟩
      have spent := spent e
      rw [e.spent_merge, Int.add_mul] at spent
      rw [effort, List.length_cons, Int.natCast_succ, Int.add_mul, Int.add_mul]
      omega

/-- The visits do not depend on how the branches end. -/
theorem Adds.nodes_eq (adds : Adds settings problem choices s verdict total) :
    total.nodes = s.nodes + (task settings problem).effortAfter .visits (problem.horizon - 2)
      problem.initial choices := by
  rcases adds.spent with ⟨-, spent⟩ | ⟨_, _, _, _, -, -, spent⟩ <;>
    simpa [Expense.spent, Expense.price] using spent .visits

end Adds

section Untabled

variable (fit : Search.Fit problem.schema settings problem.initial 1
  (Meter.fresh settings.budget .still)) (untabled : settings.usesTable = false)
  (long : 2 ≤ problem.horizon)

include fit untabled long

theorem explores_alone {choice : Choice} (allowed : problem.schema.Allows problem.initial choice) :
    ∃ o, alone settings problem (problem.initial.after choice) = .ok o ∧
      Explores settings problem (problem.initial.after choice) o := by
  have roomy := settings.roomy_of_unused untabled
  have branch := fit.after allowed 2 (unlimited_firstMeter fit.unlimited.unbounded)
  have order : (2 : Int) ≤ problem.horizon := by exact_mod_cast long
  have left : ((problem.horizon : Int) - 2).toNat = problem.horizon - 2 := by omega
  have verdict := (branch.run roomy problem.goal (by decide) order).1
  rw [left] at verdict
  obtain ⟨o, ended, found⟩ := Except.exists_of_map_eq_ok verdict
  have whole := Search.not_aborted_of_ofSteps? found
  have balances := Search.balances_of_run ended
  refine ⟨o, ended, found, fun e => ?_, balances.untabled untabled,
    balances.maxStep_le order whole, fun unmet => ?_⟩
  · rw [← left]
    exact (Search.spent_of_run e branch roomy ended whole).2 untabled
  · rw [unmet] at balances
    exact balances.maxStep_eq whole

/-- Taken in order, the branches spend what the plain search spends behind the choices. -/
theorem adds_collect {choices : List Choice}
    (allowed : ∀ choice ∈ choices, problem.schema.Allows problem.initial choice)
    (statistics : Statistics) :
    ∃ verdict total,
      collect settings problem
          (choices.map (fun choice => (choice, problem.initial.after choice))) statistics =
        .ok (verdict, total) ∧
      Adds settings problem choices statistics verdict total := by
  induction choices generalizing statistics with
  | nil => exact ⟨.noPlan, statistics, rfl, adds_nil settings problem statistics⟩
  | cons choice rest ih =>
      obtain ⟨o, ended, explores⟩ :=
        explores_alone fit untabled long (allowed choice List.mem_cons_self)
      rw [List.map_cons, collect, ended]
      simp only [explores.verdict]
      cases found : (task settings problem).plain? (problem.horizon - 2)
          (problem.initial.after choice) with
      | some steps =>
          have timeline := Timeline.precede_ofSteps problem.initial
            (problem.initial.after choice) choice steps
          refine ⟨_, _, rfl, ?_⟩
          rw [timeline]
          exact explores.adds found rest statistics
      | none =>
          obtain ⟨verdict, total, onward, adds⟩ :=
            ih (fun other member => allowed other (List.mem_cons_of_mem _ member))
              (statistics.merge o.statistics)
          exact ⟨verdict, total, onward, explores.adds_cons found adds⟩

/-- What the branches lead to is the outcome of a search by branches. -/
theorem solve_adds (unmet : problem.isGoal problem.initial = false) :
    ∃ verdict total, solve settings problem = .ok (summary settings problem (verdict, total)) ∧
      Adds settings problem (problem.schema.candidates problem.initial) (Counts.zero.visit 1)
        verdict total := by
  have undecided : (problem.horizon = 1 || problem.isGoal problem.initial : Bool) = false := by
    rw [unmet, Bool.or_false, decide_eq_false_iff_not]
    omega
  have allowed : ∀ choice ∈ problem.schema.candidates problem.initial,
      problem.schema.Allows problem.initial choice :=
    fun choice => Schema.mem_candidates_iff.mp
  obtain ⟨verdict, total, collected, adds⟩ :=
    adds_collect fit untabled long allowed (Counts.zero.visit 1)
  refine ⟨verdict, total, ?_, adds⟩
  rw [solve_eq_inOrder fit.unlimited.unbounded undecided fit.passes, inOrder,
    successors_eq fit.smooth allowed]
  dsimp only
  rw [collected]
  rfl

/-- A search without branches spends what the plain search spends on the choices at the start. -/
theorem solve_spends (unmet : problem.isGoal problem.initial = false) :
    ∃ o, Search.solve settings problem = .ok o ∧
      (∀ e : Expense, e.spent o.statistics = e.price .visits +
        (task settings problem).effortAfter e (problem.horizon - 2) problem.initial
          (problem.schema.candidates problem.initial)) ∧
      o.statistics.deadEndHits = 0 ∧ o.statistics.maxStep = problem.horizon := by
  have roomy := settings.roomy_of_unused untabled
  have order : (1 : Int) ≤ problem.horizon := by exact_mod_cast problem.horizon_pos
  have left : ((problem.horizon : Int) - 1).toNat = problem.horizon - 2 + 1 := by omega
  have verdict := (fit.run roomy problem.goal (by decide) order).1
  obtain ⟨o, ended, found⟩ := Except.exists_of_map_eq_ok verdict
  have whole := Search.not_aborted_of_ofSteps? found
  have balances := Search.balances_of_run ended
  have immediate : problem.initial.satisfies problem.goal.toList = false := unmet
  rw [immediate] at balances
  refine ⟨o, ended, fun e => ?_, balances.untabled untabled, balances.maxStep_eq whole⟩
  have spent : e.spent o.statistics = (task settings problem).effort e
      ((problem.horizon : Int) - 1).toNat problem.initial :=
    (Search.spent_of_run e fit roomy ended whole).2 untabled
  rw [spent, left]
  exact SearchTask.effort_succ_of_not immediate

/--
Without tables a search by branches, whatever turns its threads take, makes the
visits of a search without branches and comes to the same last step.  Without a
plan it makes as many transitions, and one backtrack less, as it does not give
the first state up.  With a plan it makes as many backtracks, and one transition
more for each choice at the first state to the right of the one that is taken.
-/
theorem returns_work (positive : 1 ≤ workers) (unmet : problem.isGoal problem.initial = false) :
    ∃ single branched : Outcome,
      Search.solve settings problem = .ok single ∧
      (∀ result, Returns workers settings problem result ↔ result = .ok branched) ∧
      branched.verdict = single.verdict ∧
      branched.statistics.nodes = single.statistics.nodes ∧
      branched.statistics.maxStep = single.statistics.maxStep ∧
      branched.statistics.deadEndHits = 0 ∧ single.statistics.deadEndHits = 0 ∧
      (single.verdict = .noPlan ∧
          branched.statistics.transitions = single.statistics.transitions ∧
          single.statistics.backtracks = branched.statistics.backtracks + 1 ∨
        ∃ timeline left choice right, single.verdict = .success timeline ∧
          timeline.choices.head? = some choice ∧
          problem.schema.candidates problem.initial = left ++ choice :: right ∧
          single.statistics.backtracks = branched.statistics.backtracks ∧
          branched.statistics.transitions = single.statistics.transitions + right.length) := by
  obtain ⟨single, ended, spent, hits, last⟩ := solve_spends fit untabled long unmet
  obtain ⟨verdict, total, solved, adds⟩ := solve_adds fit untabled long unmet
  have same := solve_verdict fit
  rw [ended, solved] at same
  have same : verdict = single.verdict := Except.ok.inj same
  have deepest : total.maxStep = problem.horizon := by
    have within := adds.within
    -- The first choice is to do nothing, and its branch goes down to the last step.
    have idle := adds.deepest none rfl unmet
    simp only [Counts.visit, Counts.zero] at within
    omega
  have first : ∀ e : Expense, e.spent (Counts.zero.visit 1) = e.price .visits := by
    intro e
    rw [e.spent_visit, e.spent_zero, Int.zero_add]
  have returns : ∀ result, Returns workers settings problem result ↔
      result = .ok (summary settings problem (verdict, total)) := by
    intro result
    rw [returns_iff fit.unlimited.unbounded positive, solved]
  refine ⟨single, _, ended, returns, same, ?_, deepest.trans last.symm, adds.deadEndHits, hits,
    ?_⟩
  · exact adds.nodes_eq.trans (spent .visits).symm
  · rcases adds.spent with ⟨none, more⟩ | ⟨left, choice, right, steps, split, success, more⟩
    · have transitions := more .transitions
      have backtracks := more .backtracks
      rw [first, ← spent] at transitions backtracks
      refine .inl ⟨same.symm.trans none, ?_, ?_⟩
      · change total.transitions + (problem.schema.candidates problem.initial).length = _
        simpa [Expense.spent, Expense.price] using transitions
      · change _ = total.backtracks + 1
        simpa [Expense.spent, Expense.price] using backtracks.symm
    · have transitions := more .transitions
      have backtracks := more .backtracks
      rw [first, ← spent] at transitions backtracks
      simp only [Expense.spent, Expense.price, reduceCtorEq, if_true, if_false, Int.mul_one,
        Int.mul_zero, Int.add_zero] at transitions backtracks
      refine .inr ⟨_, left, choice, right, same.symm.trans success, rfl, split,
        backtracks.symm, ?_⟩
      have count := congrArg List.length split
      rw [List.length_append, List.length_cons] at count
      change total.transitions + (problem.schema.candidates problem.initial).length = _
      omega

end Untabled

/-- The two branches of the lone disc make the visits of a search without branches. -/
theorem returns_work_loneDisc :
    ∃ single branched : Outcome,
      Search.solve { usesTable := false } loneDiscProblem = .ok single ∧
      Returns 2 { usesTable := false } loneDiscProblem (.ok branched) ∧
      branched.statistics.nodes = single.statistics.nodes := by
  have fit : Search.Fit loneDiscProblem.schema { usesTable := false } loneDiscProblem.initial 1
      (Meter.fresh {} .still) := Search.unhindered_loneDisc.untabled.toFit
  obtain ⟨single, branched, ended, returns, -, nodes, -⟩ :=
    @returns_work 2 { usesTable := false } loneDiscProblem fit rfl (by decide) (by decide) rfl
  exact ⟨single, branched, ended, (returns _).mpr rfl, nodes⟩

end Branching

end StackingPlanner
