import Mathlib.Data.List.Basic
import StackingPlanner.Proofs.Search.Refusals
import StackingPlanner.Proofs.Search.Threshold

/-!
# Branches that share a bound on their visits

The branches of a search charge one meter, in whatever order their threads take
turns.  A bound on the visits can have the search aborted, but a result that is
no abortion is what one search without bounds finds.  If the bound allows one
visit and all visits that the branches make alone, the branches are never cut
short: at every turn the meter still affords the visits that they need.
-/

namespace StackingPlanner

def SearchSettings.unbounded (settings : SearchSettings) : SearchSettings :=
  { settings with budget := {} }

namespace Branching

variable {workers : Nat} {settings : SearchSettings} {problem : Problem}

/-- How many visits the search from a state after the first step makes alone without bounds. -/
def visits (settings : SearchSettings) (problem : Problem) (s : State) : Nat :=
  match alone settings.unbounded problem s with
  | .ok outcome => outcome.statistics.nodes.toNat
  | .error _ => 0

/-- Alone and without bounds the search from a state comes to an outcome and is not aborted. -/
def Completes (settings : SearchSettings) (problem : Problem) (s : State) : Prop :=
  ∃ outcome, alone settings.unbounded problem s = .ok outcome ∧
    outcome.statistics.nodes = visits settings problem s ∧
    ∀ reason, outcome.verdict ≠ .aborted reason

/-- The visits that the search from a state still needs to come to what it comes to alone. -/
def Stage.needs (settings : SearchSettings) (problem : Problem) (s : State) : Stage → Nat
  | .waiting => visits settings problem s
  | .running m => (visits settings problem s - m.statistics.nodes).toNat
  | .done _ => 0

def Pool.needs (settings : SearchSettings) (problem : Problem) (p : Pool) : Nat :=
  (p.branches.map (fun b => b.stage.needs settings problem b.start)).sum +
    (p.unsubmitted.map (fun choice => visits settings problem (problem.initial.after choice))).sum

/-- A branch that no refusal has touched. -/
structure Branch.Spared (settings : SearchSettings) (problem : Problem) (b : Branch) : Prop where
  completes : Completes settings problem b.start
  keeps : b.KeepsTo settings.unbounded problem

/--
The invariant of a pool whose meter affords what its branches need: no branch
is touched by a refusal, and so the pool is not decided by one.
-/
inductive Pool.Covered (settings : SearchSettings) (problem : Problem) (p : Pool) : Prop where
  | undecided (undecided : p.answer? = none) {left : Nat} (affords : p.meter.Affords left)
      (allowed : ∀ choice ∈ p.unsubmitted, problem.schema.Allows problem.initial choice)
      (spared : ∀ b ∈ p.branches, b.Spared settings problem)
      (covered : p.needs settings problem ≤ left)
  | decided {answer : Except Fault Verdict} (decided : p.answer? = some answer)
      (whole : ∀ reason, answer ≠ .ok (.aborted reason))

section Branch

variable {b : Branch} {m : Machine} {meter : Meter}

theorem begin_needs_le (settings : SearchSettings) (problem : Problem) (s : State)
    (meter : Meter) :
    (Stage.begin settings problem s meter).1.needs settings problem s ≤
      visits settings problem s := by
  unfold Stage.begin
  cases settings.table with
  | error misuse => exact Nat.zero_le _
  | ok table =>
      dsimp only
      cases settings.checkStart problem.schema s (.whole 2) with
      | error failure => exact Nat.zero_le _
      | ok passes => exact Nat.le_refl _

theorem Branch.Spared.begin (spared : b.Spared settings problem) (long : 2 ≤ problem.horizon)
    (meter : Meter) :
    ({ b with stage := (Stage.begin settings problem b.start meter).1 } : Branch).Spared
      settings problem :=
  ⟨spared.completes, @begin_keepsTo settings.unbounded problem rfl long b meter⟩

theorem Branch.Spared.nodes_le (spared : b.Spared settings problem)
    (runs : b.stage = .running m) :
    m.statistics.nodes + m.visitsNext.toNat ≤ visits settings problem b.start := by
  have free : (Meter.fresh {} .still).Unlimited := Meter.unlimited_fresh rfl .still
  obtain ⟨outcome, ended, counted, _⟩ := spared.completes
  have keeps := spared.keeps
  unfold Branch.KeepsTo at keeps
  rw [runs] at keeps
  have ends := (keeps _ free).trans ended
  rw [← counted, Search.nodes_of_conclude ends]
  exact Machine.nodes_next_le_run (task settings.unbounded problem)
    (m := { m with meter := Meter.fresh {} .still }) free

/-- A step of a branch whose needs are afforded is charged for what it needs less. -/
theorem Branch.Spared.work (spared : b.Spared settings problem) (runs : b.stage = .running m)
    {left : Nat} (affords : meter.Affords left)
    (enough : b.stage.needs settings problem b.start ≤ left) :
    ({ b with stage := (Stage.work settings problem m meter).1 } : Branch).Spared
        settings problem ∧
      ∃ rest, (Stage.work settings problem m meter).2.Affords rest ∧
        (Stage.work settings problem m meter).1.needs settings problem b.start + left ≤
          b.stage.needs settings problem b.start + rest := by
  have within := spared.nodes_le runs
  rw [runs, Stage.needs] at enough ⊢
  have afforded : m.visitsNext.toNat ≤ left := by omega
  obtain ⟨granted, affords⟩ := Machine.step_affords (task settings problem)
    (m := { m with meter }) affords afforded
  have counted : (Machine.step (task settings problem) { m with meter }).machine.statistics.nodes =
      m.statistics.nodes + m.visitsNext.toNat :=
    Machine.step_counts (task settings problem) granted
  have keeps : ({ b with stage := (Stage.work settings problem m meter).1 } : Branch).KeepsTo
      settings.unbounded problem := work_keepsTo runs spared.keeps granted
  constructor
  · exact ⟨spared.completes, keeps⟩
  · refine ⟨left - m.visitsNext.toNat, ?_, ?_⟩
    · rw [work_meter]
      exact affords
    · unfold Stage.work
      cases next : Machine.step (task settings problem) { m with meter } with
      | going n =>
          rw [next, Progress.machine] at counted
          dsimp only [Stage.needs]
          omega
      | halted ending n =>
          dsimp only [Stage.needs]
          omega

end Branch

namespace Pool

variable {p q : Pool}

theorem covered_initial {meter : Meter} {left : Nat} (affords : meter.Affords left)
    (enough : (initial problem meter).needs settings problem ≤ left) :
    (initial problem meter).Covered settings problem :=
  .undecided rfl affords (fun _ => Schema.mem_candidates_iff.mp) (fun _ none => nomatch none)
    enough

theorem Covered.submit (completes : ∀ choice, problem.schema.Allows problem.initial choice →
      Completes settings problem (problem.initial.after choice))
    (smooth : problem.schema.Smooth settings.checked problem.initial)
    (covered : p.Covered settings problem) {choice : Choice} {rest : List Choice}
    (undecided : p.answer? = none) (next : p.unsubmitted = choice :: rest) :
    (p.submit choice rest (problem.schema.advance settings.checked problem.initial choice
      (.whole 1))).Covered settings problem := by
  cases covered with
  | decided decided _ => cases undecided.symm.trans decided
  | undecided _ affords allowed spared covered =>
      rw [next, List.forall_mem_cons] at allowed
      obtain ⟨here, later⟩ := allowed
      rw [smooth.advance here]
      refine .undecided undecided affords later (List.forall_mem_append.mpr ⟨spared, ?_⟩) ?_
      · intro b member
        cases List.mem_singleton.mp member
        exact ⟨completes choice here, trivial⟩
      · rw [Pool.needs, next] at covered
        simp only [Pool.needs, Pool.submit, List.map_append, List.map_cons, List.map_nil,
          List.sum_append, List.sum_cons, List.sum_nil, Stage.needs] at covered ⊢
        omega

theorem Covered.replace (covered : p.Covered settings problem) {before after : List Branch}
    {b : Branch} {stage : Stage} {meter : Meter} (split : p.branches = before ++ b :: after)
    (pays : ∀ left, p.meter.Affords left → b.Spared settings problem →
      b.stage.needs settings problem b.start ≤ left →
        ({ b with stage } : Branch).Spared settings problem ∧
          ∃ rest, meter.Affords rest ∧
            stage.needs settings problem b.start + left ≤
              b.stage.needs settings problem b.start + rest) :
    { p with branches := before ++ { b with stage } :: after, meter }.Covered settings problem := by
  cases covered with
  | decided decided whole => exact .decided decided whole
  | @undecided undecided left affords allowed spared covered =>
      simp only [Pool.needs, split, List.map_append, List.map_cons, List.sum_append,
        List.sum_cons] at covered
      obtain ⟨here, rest, affords, paid⟩ :=
        pays left affords (spared b (by simp [split])) (by omega)
      refine .undecided undecided affords allowed
        (forall_mem_replace split spared (fun _ => here)) ?_
      simp only [Pool.needs, List.map_append, List.map_cons, List.sum_append, List.sum_cons]
      omega

theorem Covered.take (covered : p.Covered settings problem) {b : Branch} {rest : List Branch}
    {result : Except Fault Outcome} (undecided : p.answer? = none)
    (first : p.branches = b :: rest) (done : b.stage = .done result) :
    (p.take problem b.choice rest result).Covered settings problem := by
  cases covered with
  | decided decided _ => cases undecided.symm.trans decided
  | undecided _ affords allowed spared covered =>
      rw [first, List.forall_mem_cons] at spared
      obtain ⟨here, others⟩ := spared
      have keeps := here.keeps
      unfold Branch.KeepsTo at keeps
      rw [done] at keeps
      obtain ⟨⟨verdict, counts, step⟩, ended, _, whole⟩ := here.completes
      cases keeps.trans ended
      cases verdict with
      | noPlan =>
          refine .undecided undecided affords allowed others ?_
          simp only [Pool.needs, Pool.take, first, List.map_cons, List.sum_cons] at covered ⊢
          omega
      | aborted reason => exact absurd rfl (whole reason)
      | success timeline => exact .decided rfl (by rintro reason ⟨⟩)

theorem Covered.turn (completes : ∀ choice, problem.schema.Allows problem.initial choice →
      Completes settings problem (problem.initial.after choice))
    (smooth : problem.schema.Smooth settings.checked problem.initial)
    (long : 2 ≤ problem.horizon) (covered : p.Covered settings problem)
    (turn : Turn workers settings problem p q) : q.Covered settings problem := by
  cases turn with
  | submit undecided next => exact covered.submit completes smooth undecided next
  | @begin before after b split waits idle =>
      refine covered.replace split
        (fun left affords spared _ => ⟨spared.begin long _, left, ?_, ?_⟩)
      · rw [begin_meter]
        exact affords.start
      · have fewer := begin_needs_le settings problem b.start p.meter
        rw [waits, Stage.needs]
        omega
  | work split runs =>
      exact covered.replace split (fun left affords spared => spared.work runs affords)
  | take undecided _ first done => exact covered.take undecided first done
  | finish _ _ _ => exact .decided rfl (by rintro reason ⟨⟩)

end Pool

section Free

variable (free : Search.Unhindered problem.schema settings problem.initial 1
  (Meter.fresh {} .still))

include free

theorem completes_after (long : 2 ≤ problem.horizon) {choice : Choice}
    (allowed : problem.schema.Allows problem.initial choice) :
    Completes settings problem (problem.initial.after choice) := by
  have later := free.admits.after free.accepted allowed
  have admits : settings.unbounded.Admits problem.schema (problem.initial.after choice) :=
    ⟨later.sameScope, later.sane⟩
  have order : (2 : Int) ≤ problem.horizon := by exact_mod_cast long
  obtain ⟨outcome, ended, answers⟩ := Search.run_answers free.accepted admits free.room
    problem.goal (by decide) order (firstMeter settings.unbounded)
  have excused := Search.excused_of_run (Meter.serves_fresh {} .still).start ended
  have ended : alone settings.unbounded problem (problem.initial.after choice) = .ok outcome :=
    ended
  refine ⟨outcome, ended, ?_, fun reason aborted => ?_⟩
  · rw [visits, ended]
    exact (Int.toNat_of_nonneg answers.counted).symm
  · exact Budget.not_imposes_of_unlimited rfl reason (excused reason aborted)

/-- Whatever turns the threads take, a pool stays covered. -/
theorem covered_of_turns (long : 2 ≤ problem.horizon) {meter : Meter} {left : Nat}
    (affords : meter.Affords left)
    (enough : (Pool.initial problem meter).needs settings problem ≤ left) {p : Pool}
    (turns : Turns workers settings problem (Pool.initial problem meter) p) :
    p.Covered settings problem := by
  induction turns with
  | refl => exact Pool.covered_initial affords enough
  | tail _ turn ih =>
      exact ih.turn (fun _ => completes_after free long) free.smooth long turn

/-- What a bound affords that allows one visit and all that the branches need is not aborted. -/
theorem whole_of_returnsFrom {first : Meter} {left : Nat} (affords : first.Affords (left + 1))
    (enough : ((problem.schema.candidates problem.initial).map
      (fun choice => visits settings problem (problem.initial.after choice))).sum ≤ left)
    {outcome : Outcome} (returns : ReturnsFrom workers settings problem first (.ok outcome))
    (reason : Refusal) : outcome.verdict ≠ .aborted reason := by
  have granted := affords.charge_succ
  generalize given : Except.ok outcome = result at returns
  cases returns with
  | direct decided =>
      have order : (1 : Int) ≤ problem.horizon := by exact_mod_cast problem.horizon_pos
      have inOrder : ¬ ((1 : Int) < 1 ∨ (problem.horizon : Int) < 1) := by omega
      obtain ⟨table, made, _⟩ := free.room.roomy
      obtain ⟨whole, ended, _⟩ := Search.run_answers free.accepted free.admits free.room
        problem.goal (Int.le_refl 1) order (Meter.fresh {} .still)
      have direct : ((problem.horizon : Int) - 1).toNat = 0 ∨
          problem.initial.satisfies problem.goal.toList = true := by
        rcases Bool.or_eq_true_iff.mp decided with single | holds
        · have single := of_decide_eq_true single
          exact .inl (by omega)
        · exact .inr holds
      have once := Search.nodes_le_one_of_run direct ended
      have same := (Search.run_affords inOrder made free.passes free.unlimited affords ended).1
        (by omega)
      cases given.trans same
      intro aborted
      exact Budget.not_imposes_of_unlimited rfl reason
        (Search.excused_of_run (Meter.serves_fresh {} .still) ended reason aborted)
  | refused undecided charged => cases granted.symm.trans charged
  | unfit undecided charged fails => cases given
  | @pooled meter p answer undecided charged passes turns ended answers =>
      cases granted.symm.trans charged
      have within : (Pool.initial problem { first with nodes := first.nodes + 1 }).needs settings
          problem ≤ left := by
        simpa [Pool.needs, Pool.initial] using enough
      cases covered_of_turns free (two_le_horizon undecided) affords.count within turns with
      | undecided open? => cases answers.symm.trans open?
      | @decided answer decided whole =>
          cases answers.symm.trans decided
          cases answer with
          | error fault => cases given
          | ok verdict =>
              cases given
              rintro rfl
              exact whole reason rfl

end Free

/--
With a bound on its visits a search by branches returns, and whatever turns its
threads take, whatever it returns is what one search without bounds finds, or
the search was aborted because of the bound.  If the bound allows one visit and
all that the branches make alone without bounds, the search is not aborted.
-/
theorem returnsFrom_bounded {limit : Nat}
    (free : Search.Unhindered problem.schema settings problem.initial 1 (Meter.fresh {} .still))
    (bounded : settings.budget = { maxNodes := some (.whole limit) }) (positive : 1 ≤ workers)
    (clock : Clock) :
    ∃ plain, Search.solve settings.unbounded problem = .ok plain ∧
      (∃ result,
        ReturnsFrom workers settings problem (Meter.fresh settings.budget clock).start result) ∧
      ∀ result,
        ReturnsFrom workers settings problem (Meter.fresh settings.budget clock).start result →
        ∃ outcome, result = .ok outcome ∧
          (∀ timeline, outcome.verdict = .success timeline →
            plain.verdict = .success timeline) ∧
          (outcome.verdict = .noPlan → plain.verdict = .noPlan) ∧
          (∀ reason, outcome.verdict = .aborted reason → reason = .nodeBudget) ∧
          (1 + ((problem.schema.candidates problem.initial).map
              (fun choice => visits settings problem (problem.initial.after choice))).sum ≤ limit →
            ∀ reason, outcome.verdict ≠ .aborted reason) := by
  have order : (1 : Int) ≤ problem.horizon := by exact_mod_cast problem.horizon_pos
  have left : ((problem.horizon : Int) - 1).toNat = problem.horizon - 1 := by omega
  -- The settings without bounds make the same checks and use the same table.
  have fit : Search.Fit problem.schema settings.unbounded problem.initial 1
      (Meter.fresh {} .still) := ⟨free.built, free.verified, free.unlimited⟩
  have room : settings.unbounded.HasRoom := free.room
  have verdict := (fit.run room.roomy problem.goal (Int.le_refl 1) order).1
  rw [left] at verdict
  obtain ⟨plain, solved, found⟩ := Except.exists_of_map_eq_ok verdict
  refine ⟨plain, solved, exists_returnsFrom positive _, fun result returns => ?_⟩
  obtain ⟨outcome, rfl, answers⟩ :=
    answers_of_returnsFrom free.accepted free.admits free.room returns
  have said := answers.verdict
  have serves := (Meter.serves_fresh settings.budget clock).start
  refine ⟨outcome, rfl, fun timeline success => ?_, fun none => ?_, fun reason aborted => ?_,
    fun enough => ?_⟩
  · rw [success] at said
    obtain ⟨steps, searched, rfl⟩ := said
    rw [found, searched, Verdict.ofSteps?]
  · rw [none] at said
    rw [found, said, Verdict.ofSteps?]
  · have imposed := excused_of_returnsFrom serves returns reason aborted
    rw [bounded] at imposed
    cases reason with
    | nodeBudget => rfl
    | cancelled => cases imposed
    | timeLimit => cases imposed
  · obtain ⟨left, rfl⟩ : ∃ left, limit = left + 1 := Nat.exists_eq_succ_of_ne_zero (by omega)
    have affords : (Meter.fresh settings.budget clock).Affords (left + 1) :=
      Meter.affords_of_le bounded rfl (Nat.zero_le _)
    exact whole_of_returnsFrom free affords.start (by omega) returns

/-! ## Two branches of one visit -/

/-- The branches of a problem with two states in its timeline make one visit each. -/
theorem visits_le_one (brief : problem.horizon = 2) (s : State) :
    visits settings problem s ≤ 1 := by
  unfold visits
  split
  · rename_i outcome ended
    have once := Search.nodes_le_one_of_run (.inl (by rw [brief]; rfl)) ended
    omega
  · exact Nat.zero_le 1

/-- The disc can be left or picked up, but it cannot come to the other peg in one step. -/
def loneDiscBrief : Problem := { loneDiscProblem with horizon := 2, horizon_pos := by decide }

theorem returnsFrom_bounded_loneDiscBrief :
    ∃ plain outcome,
      Search.solve {} loneDiscBrief = .ok plain ∧
      ReturnsFrom 2 { budget := { maxNodes := some (.whole 3) } } loneDiscBrief
        (Meter.fresh { maxNodes := some (.whole 3) } .still).start (.ok outcome) ∧
      (∀ timeline, outcome.verdict = .success timeline → plain.verdict = .success timeline) ∧
      (outcome.verdict = .noPlan → plain.verdict = .noPlan) ∧
      ∀ reason, outcome.verdict ≠ .aborted reason := by
  let settings : SearchSettings := { budget := { maxNodes := some (.whole 3) } }
  have free : Search.Unhindered loneDiscBrief.schema settings loneDiscBrief.initial 1
      (Meter.fresh {} .still) :=
    ⟨⟨Search.unhindered_loneDisc.built, Search.unhindered_loneDisc.verified,
      Search.unhindered_loneDisc.unlimited⟩, Search.unhindered_loneDisc.room⟩
  obtain ⟨plain, solved, ⟨result, returns⟩, all⟩ :=
    @returnsFrom_bounded 2 settings loneDiscBrief 3 free rfl (by decide) .still
  obtain ⟨outcome, rfl, success, none, _, whole⟩ := all result returns
  refine ⟨plain, outcome, solved, returns, success, none, whole ?_⟩
  have count : (loneDiscBrief.schema.candidates loneDiscBrief.initial).length = 2 := by
    decide +kernel
  obtain ⟨idle, act, both⟩ := List.length_eq_two.mp count
  have first := @visits_le_one settings loneDiscBrief rfl (loneDiscBrief.initial.after idle)
  have second := @visits_le_one settings loneDiscBrief rfl (loneDiscBrief.initial.after act)
  rw [both]
  simp only [List.map_cons, List.map_nil, List.sum_cons, List.sum_nil]
  omega

end Branching

end StackingPlanner
