import StackingPlanner.Search.Pool
import StackingPlanner.Proofs.Search.Independence

/-!
# A search by branches finds what a search finds

The plain search from a state tries the states after its candidates one after
another, and so does a search by branches.  Since a search does not depend on
its table, nor on what was charged to its meter, both find the same.
-/

namespace StackingPlanner

namespace Branching

def alone (settings : SearchSettings) (problem : Problem) (s : State) : Except Fault Outcome :=
  (Search.run problem.schema settings s problem.goal problem.horizon 2 (firstMeter settings)).1

/-- What the outcomes of several branches lead to when they are taken in order. -/
def collect (settings : SearchSettings) (problem : Problem) :
    List (Choice × State) → Statistics → Except Fault (Verdict × Statistics)
  | [], statistics => .ok (.noPlan, statistics)
  | (choice, s) :: rest, statistics =>
      match alone settings problem s with
      | .error fault => .error fault
      | .ok outcome =>
          let merged := statistics.merge outcome.statistics
          match outcome.verdict with
          | .noPlan => collect settings problem rest merged
          | .aborted reason => .ok (.aborted reason, merged)
          | .success timeline => .ok (.success (timeline.precede problem.initial choice), merged)

section Unlimited

variable {settings : SearchSettings} {problem : Problem}

theorem unlimited_firstMeter (unbounded : settings.budget.unlimited = true) :
    (firstMeter settings).Unlimited :=
  (Meter.unlimited_fresh unbounded .still).start

/--
Searching the branches with one unlimited meter is taking the outcomes in
order that they have alone.
-/
theorem search_eq_collect (problem : Problem) (unbounded : settings.budget.unlimited = true)
    (branches : List (Choice × State)) (statistics : Statistics) (explored : List Outcome)
    {meter : Meter} (unlimited : meter.Unlimited) (like : meter.Like (firstMeter settings)) :
    (search settings problem branches statistics explored meter).map
        (fun f => (f.1, f.2.1, f.2.2.2.elapsed.1)) =
      (collect settings problem branches statistics).map
        (fun f => (f.1, f.2, (firstMeter settings).elapsed.1)) := by
  induction branches generalizing statistics explored meter with
  | nil =>
      have time := like.elapsed
      rw [search, collect, Except.map, Except.map, time]
  | cons branch rest ih =>
      obtain ⟨choice, s⟩ := branch
      have same : (Search.run problem.schema settings s problem.goal problem.horizon 2 meter).1 =
          alone settings problem s :=
        Search.run_outcome_eq unlimited (unlimited_firstMeter unbounded)
      have granting := @Search.unlimited_run problem.schema settings s problem.goal
        problem.horizon 2 meter unlimited
      have started : meter.startedAt.isSome = true := by
        rw [like.startedAt]
        rfl
      have counted := @Search.like_run problem.schema settings s problem.goal
        problem.horizon 2 meter unlimited.unbounded started
      rw [search, collect, ← same]
      generalize Search.run problem.schema settings s problem.goal problem.horizon 2 meter = found
        at granting counted
      obtain ⟨result, used⟩ := found
      have time : used.cancel.elapsed.1 = (firstMeter settings).elapsed.1 :=
        ((Meter.like_cancel used).trans (counted.trans like)).elapsed
      cases result with
      | error fault => rfl
      | ok outcome =>
          obtain ⟨verdict, counts, step⟩ := outcome
          cases verdict with
          | noPlan => exact ih _ _ granting (counted.trans like)
          | aborted reason =>
              exact congrArg (fun seconds => Except.ok
                (Verdict.aborted reason, statistics.merge counts, seconds)) time
          | success timeline =>
              exact congrArg (fun seconds => Except.ok
                (Verdict.success (timeline.precede problem.initial choice),
                  statistics.merge counts, seconds)) time

/-- What the branches lead to when they are taken in order, if no choice is refused. -/
def inOrder (settings : SearchSettings) (problem : Problem) :
    Except Fault (Verdict × Statistics) :=
  match successors problem.schema settings.checked problem.initial
      (problem.schema.candidates problem.initial) with
  | .error failure => .error failure
  | .ok branches => collect settings problem branches (Counts.zero.visit 1)

def summary (settings : SearchSettings) (problem : Problem) (found : Verdict × Statistics) :
    Outcome where
  verdict := found.1
  statistics :=
    { found.2 with
      transitions := found.2.transitions + (problem.schema.candidates problem.initial).length
      elapsedMs := .real ((firstMeter settings).elapsed.1 * 1000) }
  startStep := 1

theorem successors_length {schema : Schema} {checked : Bool} {initial : State}
    {choices : List Choice} {branches : List (Choice × State)}
    (made : successors schema checked initial choices = .ok branches) :
    branches.length = choices.length := by
  induction choices generalizing branches with
  | nil =>
      cases made
      rfl
  | cons choice rest ih =>
      rw [successors] at made
      obtain ⟨s, _, made⟩ := Except.exists_of_bind_eq_ok made
      obtain ⟨others, found, made⟩ := Except.exists_of_bind_eq_ok made
      cases made
      rw [List.length_cons, List.length_cons, ih found]

/-- The outcome of a search by branches is made of what the branches lead to in order. -/
theorem solve_eq_inOrder (unbounded : settings.budget.unlimited = true)
    (undecided : (problem.horizon = 1 || problem.isGoal problem.initial) = false)
    (passes : settings.checkStart problem.schema problem.initial (.whole 1) = .ok ()) :
    solve settings problem = (inOrder settings problem).map (summary settings problem) := by
  have unlimited := unlimited_firstMeter unbounded
  obtain ⟨used, charged⟩ : ∃ used, (firstMeter settings).charge = (none, used) :=
    ⟨_, unlimited.charge⟩
  have like := Meter.like_charge (m := firstMeter settings) unbounded
  have granting := unlimited.charged
  rw [charged] at like granting
  have first : (Meter.fresh settings.budget .still).start.charge = (none, used) := charged
  unfold solve explore
  simp only [undecided, Bool.false_eq_true, if_false, first, branch, passes, inOrder, Fault.lift]
  cases made : successors problem.schema settings.checked problem.initial
      (problem.schema.candidates problem.initial) with
  | error failure => rfl
  | ok branches =>
      have count := successors_length made
      have found := search_eq_collect problem unbounded branches (Counts.zero.visit 1) []
        granting like
      simp only [bind, Except.bind, pure, Except.pure]
      generalize search settings problem branches (Counts.zero.visit 1) [] _ = findings at found ⊢
      generalize collect settings problem branches (Counts.zero.visit 1) = collected at found ⊢
      cases findings with
      | error fault =>
          cases collected with
          | error fault' =>
              cases found
              rfl
          | ok found' => cases found
      | ok f =>
          cases collected with
          | error fault => cases found
          | ok found' =>
              obtain ⟨verdict, statistics⟩ := found'
              simp only [Except.map, Except.ok.injEq, Prod.mk.injEq] at found
              simp only [Except.map, summary, found, count]

end Unlimited

end Branching

namespace Machine

/-- A table without room fails as soon as the search has done nothing up to the last step. -/
theorem run_narrow (task : SearchTask) {s : State}
    (idle : ∀ step, task.schema.advance task.checked s none step = .ok s)
    (unmet : s.satisfies task.goal.toList = false) (remaining : Nat) {t : StateTable}
    (empty : t.entries = ∅) (narrow : t.isNarrow = true) (below : List Frame) {meter : Meter}
    (unlimited : meter.Unlimited) (statistics : Statistics) :
    (run task ⟨Frame.fresh remaining s :: below, some t, meter, statistics⟩).1 = .narrow := by
  induction remaining generalizing t below meter statistics with
  | zero =>
      have halts : ∃ n, step task ⟨Frame.fresh 0 s :: below, some t, meter, statistics⟩ =
          .halted .narrow n := by
        simp [step, Frame.fresh, visit, unlimited.charge, unmet, expand, giveUp, remember?,
          DeadEndTable.record?, empty, narrow]
      obtain ⟨n, halts⟩ := halts
      rw [run_of_halted halts]
  | succ remaining ih =>
      -- The look-up only counts that it found nothing.
      let missed : StateTable := { t with misses := t.misses + 1 }
      let frame : Frame := Frame.fresh (remaining + 1) s
      let visited := statistics.visit (frame.step task)
      have next : step task ⟨frame :: below, some t, meter, statistics⟩ =
          .going ⟨Frame.fresh remaining s ::
              ⟨remaining + 1, s, none, some ((task.schema.executable s).map some)⟩ :: below,
            some missed, { meter with nodes := meter.nodes + 1 },
            { visited with transitions := visited.transitions + 1 }⟩ := by
        simp [frame, visited, missed, step, Frame.fresh, visit, unlimited.charge, unmet, expand,
          lookUp, DeadEndTable.isDeadEnd, empty, Schema.candidates, tryChoice, idle]
      rw [run_of_going next]
      have charged := unlimited.charged
      rw [unlimited.charge] at charged
      exact ih (t := missed) empty narrow _ charged _

end Machine

namespace Search

variable {schema : Schema} {settings : SearchSettings} {initial : State} {startStep horizon : Int}
  {meter : Meter}

theorem Fit.after (fit : Fit schema settings initial startStep meter) {choice : Choice}
    (allowed : schema.Allows initial choice) (later : Int) {used : Meter}
    (unlimited : used.Unlimited) :
    Fit schema settings (initial.after choice) later used where
  built := fit.built
  verified checked := by
    obtain ⟨sameScope, sane⟩ := fit.sane checked
    have scope := (State.after_scope initial choice).trans sameScope
    have later := sane.after fit.accepted allowed
    exact ⟨scope, (Schema.verify_eq_ok_iff fit.accepted scope _ _).mpr later⟩
  unlimited := unlimited

theorem run_of_table_error {misuse : Misuse} (refused : settings.table = .error misuse)
    (goal : OrderedSet Literal) (first : 1 ≤ startStep) (order : startStep ≤ horizon) :
    (Search.run schema settings initial goal horizon startStep meter).1 = .error misuse := by
  have inOrder : ¬ (startStep < 1 ∨ horizon < startStep) := by omega
  rw [Search.run, if_neg inOrder, runFrom, refused]

theorem Fit.run_of_narrow (fit : Fit schema settings initial startStep meter) {t : StateTable}
    (made : settings.table = .ok (some t)) (empty : t.entries = ∅) (narrow : t.isNarrow = true)
    (goal : OrderedSet Literal) (unmet : initial.satisfies goal.toList = false)
    (first : 1 ≤ startStep) (order : startStep ≤ horizon) :
    (Search.run schema settings initial goal horizon startStep meter).1 =
      .error Misuse.narrowTable := by
  have inOrder : ¬ (startStep < 1 ∨ horizon < startStep) := by omega
  have allowed : schema.Allows initial none := trivial
  have idle := fit.smooth.advance allowed
  have ends := Machine.run_narrow ⟨schema, settings.checked, goal, horizon.toNat⟩ idle unmet
    (horizon - startStep).toNat empty narrow [] fit.unlimited.start Counts.zero
  rw [Search.run, if_neg inOrder, runFrom, made]
  simp only [fit.passes, Machine.initial, ends, conclude]

end Search

theorem Timeline.precede_ofSteps (start s : State) (choice : Choice) (steps : Steps) :
    (ofSteps s steps).precede start choice = ofSteps start ((choice, s) :: steps) := by
  simp [precede, ofSteps]

namespace Branching

variable {settings : SearchSettings} {problem : Problem}

theorem two_le_horizon
    (undecided : (problem.horizon = 1 || problem.isGoal problem.initial) = false) :
    2 ≤ problem.horizon := by
  have positive := problem.horizon_pos
  have longer := of_decide_eq_false (Bool.or_eq_false_iff.mp undecided).1
  omega

theorem solve_of_decided
    (decided : (problem.horizon = 1 || problem.isGoal problem.initial) = true) :
    solve settings problem =
      (Search.run problem.schema settings problem.initial problem.goal problem.horizon 1
        (firstMeter settings)).1 := by
  have meter : (Meter.fresh settings.budget .still).start = firstMeter settings := rfl
  unfold solve explore
  simp only [decided, if_true, meter]
  cases (Search.run problem.schema settings problem.initial problem.goal problem.horizon 1
    (firstMeter settings)).1 <;> rfl

theorem solve_of_unfit (unbounded : settings.budget.unlimited = true) {failure : Failure}
    (undecided : (problem.horizon = 1 || problem.isGoal problem.initial) = false)
    (fails : settings.checkStart problem.schema problem.initial (.whole 1) = .error failure) :
    solve settings problem = .error (.failure failure) := by
  obtain ⟨used, charged⟩ : ∃ used, (firstMeter settings).charge = (none, used) :=
    ⟨_, (unlimited_firstMeter unbounded).charge⟩
  have first : (Meter.fresh settings.budget .still).start.charge = (none, used) := charged
  unfold solve explore
  simp only [undecided, Bool.false_eq_true, if_false, first, branch, fails, Fault.lift]
  rfl

theorem successors_eq {schema : Schema} {checked : Bool} {initial : State}
    (smooth : schema.Smooth checked initial) {choices : List Choice}
    (allowed : ∀ choice ∈ choices, schema.Allows initial choice) :
    successors schema checked initial choices =
      .ok (choices.map (fun choice => (choice, initial.after choice))) := by
  induction choices with
  | nil => rfl
  | cons choice rest ih =>
      have onward := ih (fun other member => allowed other (List.mem_cons_of_mem _ member))
      rw [successors, smooth.advance (allowed choice List.mem_cons_self), onward]
      rfl

section Fit

variable (fit : Search.Fit problem.schema settings problem.initial 1
  (Meter.fresh settings.budget .still))

include fit

/-- Taken in order, the branches lead to what the plain search finds from one of them. -/
theorem collect_verdict (roomy : settings.Roomy) (long : 2 ≤ problem.horizon)
    {choices : List Choice}
    (allowed : ∀ choice ∈ choices, problem.schema.Allows problem.initial choice)
    (statistics : Statistics) :
    (collect settings problem
        (choices.map (fun choice => (choice, problem.initial.after choice))) statistics).map
          (·.1) =
      .ok (.ofSteps? problem.initial
        (Schema.tryEach (problem.schema.leftmost? problem.goal.toList (problem.horizon - 2))
          problem.initial choices)) := by
  induction choices generalizing statistics with
  | nil => rfl
  | cons choice rest ih =>
      have onward := ih (fun other member => allowed other (List.mem_cons_of_mem _ member))
      have branch := fit.after (allowed choice List.mem_cons_self) 2
        (unlimited_firstMeter fit.unlimited.unbounded)
      have order : (2 : Int) ≤ problem.horizon := by exact_mod_cast long
      have left : ((problem.horizon : Int) - 2).toNat = problem.horizon - 2 := by omega
      have verdict := (branch.run roomy problem.goal (by decide) order).1
      rw [left] at verdict
      have same : alone settings problem (problem.initial.after choice) =
        (Search.run problem.schema settings (problem.initial.after choice) problem.goal
          problem.horizon 2 (firstMeter settings)).1 := rfl
      rw [← same] at verdict
      obtain ⟨outcome, ends, is⟩ := Except.exists_of_map_eq_ok verdict
      rw [List.map_cons, collect, ends]
      simp only [is]
      cases found : problem.schema.leftmost? problem.goal.toList (problem.horizon - 2)
          (problem.initial.after choice) with
      | none =>
          rw [Schema.tryEach_cons_of_none found]
          exact onward _
      | some steps =>
          rw [Schema.tryEach_cons_of_some found]
          exact congrArg (fun t => Except.ok (Verdict.success t))
            (Timeline.precede_ofSteps problem.initial _ choice steps)

theorem inOrder_of_error {fault : Fault}
    (first : alone settings problem problem.initial = .error fault) :
    inOrder settings problem = .error fault := by
  have allowed : ∀ choice ∈ problem.schema.candidates problem.initial,
      problem.schema.Allows problem.initial choice :=
    fun choice => Schema.mem_candidates_iff.mp
  rw [inOrder, successors_eq fit.smooth allowed]
  simp only [Schema.candidates, List.map_cons, State.after_none, collect, first]

/-- A search by branches has the verdict of a search without branches. -/
theorem solve_verdict :
    (solve settings problem).map (·.verdict) = (Search.solve settings problem).map (·.verdict) := by
  have unlimited := unlimited_firstMeter fit.unlimited.unbounded
  have positive : (1 : Int) ≤ problem.horizon := by exact_mod_cast problem.horizon_pos
  cases decided : (problem.horizon = 1 || problem.isGoal problem.initial : Bool) with
  | true =>
      rw [solve_of_decided decided, Search.solve,
        Search.run_outcome_eq unlimited fit.unlimited]
  | false =>
      have unmet := (Bool.or_eq_false_iff.mp decided).2
      have long : 2 ≤ problem.horizon := two_le_horizon decided
      have order : (2 : Int) ≤ problem.horizon := by exact_mod_cast long
      have allowed : ∀ choice ∈ problem.schema.candidates problem.initial,
          problem.schema.Allows problem.initial choice :=
        fun choice => Schema.mem_candidates_iff.mp
      have onward := fit.after (allowed none List.mem_cons_self) 2 unlimited
      rw [solve_eq_inOrder fit.unlimited.unbounded decided fit.passes, Search.solve]
      rcases settings.table_cases with ⟨misuse, refused⟩ | roomy | ⟨t, made, empty, narrow⟩
      · have first : alone settings problem problem.initial = .error misuse :=
          Search.run_of_table_error refused problem.goal (by decide) order
        rw [inOrder_of_error fit first,
          Search.run_of_table_error refused problem.goal (by decide) positive]
        rfl
      · have found := collect_verdict fit roomy long allowed (Counts.zero.visit 1)
        have whole := (fit.run roomy problem.goal (by decide) positive).1
        have left : ((problem.horizon : Int) - 1).toNat = problem.horizon - 2 + 1 := by omega
        rw [left, Schema.leftmost?_succ_of_not unmet, ← found] at whole
        rw [whole, inOrder, successors_eq fit.smooth allowed]
        dsimp only
        generalize collect settings problem _ _ = collected
        cases collected <;> rfl
      · have first : alone settings problem problem.initial = .error Misuse.narrowTable :=
          onward.run_of_narrow made empty narrow problem.goal unmet (by decide) order
        rw [inOrder_of_error fit first,
          fit.run_of_narrow made empty narrow problem.goal unmet (by decide) positive]
        rfl

end Fit

end Branching

end StackingPlanner
