import Mathlib.Algebra.GroupWithZero.Nat
import StackingPlanner.Proofs.Search.Branching

/-!
# Branches that are searched at the same time find the same

Whatever turns the threads take, what a branch comes to is what it comes to
alone, as long as the meter grants every visit, and the results are taken in
order.  So what is left of the pool always leads to what the branches lead to
in order.  Each turn makes the pool lighter, and a pool in which no thread can
take a turn is over.
-/

namespace StackingPlanner

namespace Branching

variable {workers : Nat} {settings : SearchSettings} {problem : Problem}

def finish (settings : SearchSettings) (problem : Problem) (m : Machine) : Except Fault Outcome :=
  let ended := Machine.run (task settings problem) m
  Search.conclude settings 2 ended.1 ended.2.statistics

/-- A branch comes to what it comes to alone, whatever its search is still charged for. -/
def Branch.KeepsTo (settings : SearchSettings) (problem : Problem) (b : Branch) : Prop :=
  match b.stage with
  | .waiting => True
  | .running m => ∀ meter : Meter, meter.Unlimited →
      finish settings problem { m with meter } = alone settings problem b.start
  | .done result => result = alone settings problem b.start

theorem finish_eq_of_alike {m n : Machine} (alike : m.Alike n) (unlimited : m.meter.Unlimited)
    (unlimited' : n.meter.Unlimited) : finish settings problem m = finish settings problem n := by
  obtain ⟨ending, last⟩ := alike.run (task settings problem) unlimited unlimited'
  rw [finish, finish, ending, last.statistics]

theorem begin_keepsTo (unbounded : settings.budget.unlimited = true)
    (long : 2 ≤ problem.horizon) (b : Branch) (meter : Meter) :
    ({ b with stage := (Stage.begin settings problem b.start meter).1 } : Branch).KeepsTo
      settings problem := by
  have inOrder : ¬ ((2 : Int) < 1 ∨ (problem.horizon : Int) < 2) := by omega
  have left : ((problem.horizon : Int) - 2).toNat = problem.horizon - 2 := by omega
  unfold Branch.KeepsTo
  rw [alone, Search.run, if_neg inOrder, Search.runFrom, left]
  unfold Stage.begin
  cases settings.table with
  | error misuse => rfl
  | ok table =>
      dsimp only
      cases settings.checkStart problem.schema b.start (.whole 2) with
      | error failure => rfl
      | ok passes =>
          intro used granting
          exact finish_eq_of_alike ⟨rfl, rfl, rfl⟩ granting
            (unlimited_firstMeter unbounded).start

theorem work_keepsTo {b : Branch} {m : Machine} (runs : b.stage = .running m)
    (keeps : b.KeepsTo settings problem) {meter : Meter}
    (granted : m.visitsNext = true → meter.charge.1 = none) :
    ({ b with stage := (Stage.work settings problem m meter).1 } : Branch).KeepsTo
      settings problem := by
  have free : (Meter.fresh {} .still).Unlimited := Meter.unlimited_fresh rfl .still
  unfold Branch.KeepsTo at keeps ⊢
  rw [runs] at keeps
  have expected := keeps _ free
  have after := Machine.unlimited_step (task settings problem)
    (m := { m with meter := Meter.fresh {} .still }) free
  have alike : ({ m with meter := Meter.fresh {} .still } : Machine).Alike { m with meter } :=
    ⟨rfl, rfl, rfl⟩
  have steps := alike.step (task settings problem) (fun _ => free.granted) granted
  unfold Stage.work
  -- Beside the step that is made stands the one with a meter that grants everything.
  cases alone : Machine.step (task settings problem) { m with meter := Meter.fresh {} .still } with
  | going k =>
      rw [alone] at steps after
      obtain ⟨n, next, alike⟩ := steps.of_going
      rw [next]
      intro used granting
      rw [← expected, finish, finish, Machine.run_of_going alone]
      exact finish_eq_of_alike ⟨alike.frames.symm, alike.table.symm, alike.statistics.symm⟩
        granting after
  | halted ending k =>
      rw [alone] at steps
      obtain ⟨n, next, alike⟩ := steps.of_halted
      rw [next, ← expected, finish, Machine.run_of_halted alone, alike.statistics]

/-- What is left of a pool leads to this when the results are taken in order. -/
def Pool.forecast (settings : SearchSettings) (problem : Problem) (p : Pool) :
    Except Fault (Verdict × Statistics) :=
  match successors problem.schema settings.checked problem.initial p.unsubmitted with
  | .error failure => .error failure
  | .ok more =>
      collect settings problem (p.branches.map (fun b => (b.choice, b.start)) ++ more)
        p.statistics

/--
The invariant of a pool: before it is decided, what is left leads to what the
branches lead to in order, and afterwards that is the answer.
-/
inductive Pool.OnTrack (settings : SearchSettings) (problem : Problem) (p : Pool) : Prop where
  | undecided (undecided : p.answer? = none) (unlimited : p.meter.Unlimited)
      (keep : ∀ b ∈ p.branches, b.KeepsTo settings problem)
      (forecast : p.forecast settings problem = inOrder settings problem)
  | decided {answer : Except Fault Verdict} (decided : p.answer? = some answer)
      (same : answer.map (fun v => (v, p.statistics)) = inOrder settings problem)

/-- What holds of all branches holds of them when one of them goes on and it still holds of that. -/
theorem forall_mem_replace {holds : Branch → Prop} {branches before after : List Branch}
    {b c : Branch} (split : branches = before ++ b :: after) (all : ∀ b ∈ branches, holds b)
    (keeps : holds b → holds c) : ∀ b ∈ before ++ c :: after, holds b := by
  subst split
  simp only [List.forall_mem_append, List.forall_mem_cons] at all ⊢
  obtain ⟨earlier, here, later⟩ := all
  exact ⟨earlier, keeps here, later⟩

namespace Pool

variable {p q : Pool}

theorem onTrack_initial {meter : Meter} (unlimited : meter.Unlimited) :
    (initial problem meter).OnTrack settings problem := by
  refine .undecided rfl unlimited (by rintro b ⟨⟩) ?_
  rfl

theorem OnTrack.submit {choice : Choice} {rest : List Choice} (track : p.OnTrack settings problem)
    (open? : p.answer? = none) (next : p.unsubmitted = choice :: rest) :
    (p.submit choice rest (problem.schema.advance settings.checked problem.initial choice
      (.whole 1))).OnTrack settings problem := by
  cases track with
  | decided decided _ => cases open?.symm.trans decided
  | undecided undecided unlimited keep forecast =>
      rw [Pool.forecast, next, successors] at forecast
      cases advanced : problem.schema.advance settings.checked problem.initial choice
          (.whole 1) with
      | error failure =>
          rw [advanced] at forecast
          exact .decided rfl forecast
      | ok s =>
          refine .undecided undecided unlimited ?_ ?_
          · intro b member
            rcases List.mem_append.mp member with earlier | here
            · exact keep b earlier
            · cases List.mem_singleton.mp here
              trivial
          · rw [← forecast, advanced, Pool.forecast, Pool.submit]
            cases successors problem.schema settings.checked problem.initial rest with
            | error failure => rfl
            | ok more => simp [bind, Except.bind, pure, Except.pure]

theorem OnTrack.replace {before after : List Branch} {b : Branch} {stage : Stage} {meter : Meter}
    (track : p.OnTrack settings problem) (split : p.branches = before ++ b :: after)
    (unlimited : p.meter.Unlimited → meter.Unlimited)
    (keeps : p.meter.Unlimited → b.KeepsTo settings problem →
      ({ b with stage } : Branch).KeepsTo settings problem) :
    { p with branches := before ++ { b with stage } :: after, meter }.OnTrack settings problem := by
  cases track with
  | decided decided same => exact .decided decided same
  | undecided undecided granting keep forecast =>
      refine .undecided undecided (unlimited granting)
        (forall_mem_replace split keep (keeps granting)) ?_
      rw [← forecast, Pool.forecast, Pool.forecast, split]
      simp

theorem OnTrack.take {b : Branch} {rest : List Branch} {result : Except Fault Outcome}
    (track : p.OnTrack settings problem) (open? : p.answer? = none)
    (submitted : p.unsubmitted = []) (first : p.branches = b :: rest)
    (done : b.stage = .done result) :
    (p.take problem b.choice rest result).OnTrack settings problem := by
  cases track with
  | decided decided _ => cases open?.symm.trans decided
  | undecided undecided unlimited keep forecast =>
      have keeps := keep b (by simp [first])
      unfold Branch.KeepsTo at keeps
      rw [done] at keeps
      rw [Pool.forecast, submitted, first, successors] at forecast
      simp only [List.map_cons, List.append_nil, collect] at forecast
      rw [← keeps] at forecast
      cases result with
      | error fault => exact .decided rfl forecast
      | ok outcome =>
          obtain ⟨verdict, counts, step⟩ := outcome
          cases verdict with
          | noPlan =>
              refine .undecided undecided unlimited ?_ ?_
              · intro other member
                have left : other ∈ rest := member
                exact keep other (by simp [first, left])
              · rw [← forecast, Pool.forecast, Pool.take, submitted, successors]
                simp
          | aborted reason => exact .decided rfl forecast
          | success timeline => exact .decided rfl forecast

theorem OnTrack.finish (track : p.OnTrack settings problem) (open? : p.answer? = none)
    (submitted : p.unsubmitted = []) (none : p.branches = []) :
    { p with answer? := some (.ok .noPlan) }.OnTrack settings problem := by
  cases track with
  | decided decided _ => cases open?.symm.trans decided
  | undecided _ _ _ forecast =>
      rw [Pool.forecast, submitted, none, successors] at forecast
      exact .decided rfl forecast

end Pool

theorem begin_meter (s : State) (meter : Meter) :
    (Stage.begin settings problem s meter).2 = meter.start := by
  unfold Stage.begin
  cases settings.table with
  | error misuse => rfl
  | ok table =>
      dsimp only
      cases settings.checkStart problem.schema s (.whole 2) <;> rfl

theorem work_meter (m : Machine) (meter : Meter) :
    (Stage.work settings problem m meter).2 =
      (Machine.step (task settings problem) { m with meter }).machine.meter := by
  unfold Stage.work
  cases Machine.step (task settings problem) { m with meter } <;> rfl

namespace Pool

variable {p q : Pool}

/-- Each turn keeps a pool on track. -/
theorem OnTrack.turn (unbounded : settings.budget.unlimited = true)
    (long : 2 ≤ problem.horizon) (track : p.OnTrack settings problem)
    (turn : Turn workers settings problem p q) : q.OnTrack settings problem := by
  cases turn with
  | submit undecided next => exact track.submit undecided next
  | @begin before after b split waits idle =>
      refine track.replace split (fun unlimited => ?_) (fun _ _ => ?_)
      · rw [begin_meter]
        exact unlimited.start
      · exact begin_keepsTo unbounded long b p.meter
  | @work before after b m split runs =>
      refine track.replace split (fun unlimited => ?_) (fun unlimited keeps => ?_)
      · rw [work_meter]
        exact Machine.unlimited_step _ unlimited
      · exact work_keepsTo runs keeps (fun _ => unlimited.granted)
  | take undecided submitted first done => exact track.take undecided submitted first done
  | finish undecided submitted none => exact track.finish undecided submitted none

theorem like_turn (unbounded : p.meter.budget.unlimited = true)
    (started : p.meter.startedAt.isSome = true) (turn : Turn workers settings problem p q) :
    q.meter.Like p.meter := by
  cases turn with
  | @submit choice rest _ _ =>
      cases problem.schema.advance settings.checked problem.initial choice (.whole 1) <;>
        exact .refl _
  | begin _ _ _ =>
      dsimp only
      rw [begin_meter, Meter.start_of_started started]
      exact .refl _
  | work _ _ =>
      dsimp only
      rw [work_meter]
      exact Machine.like_step _ unbounded
  | @take b rest result _ _ _ _ =>
      cases result with
      | error fault => exact .refl _
      | ok outcome =>
          simp only [take]
          cases outcome.verdict with
          | noPlan => exact .refl _
          | aborted reason => exact Meter.like_cancel _
          | success timeline => exact Meter.like_cancel _
  | finish _ _ _ => exact .refl _

theorem onTrack_of_turns (unbounded : settings.budget.unlimited = true)
    (long : 2 ≤ problem.horizon) {meter : Meter} (unlimited : meter.Unlimited)
    (turns : Turns workers settings problem (initial problem meter) p) :
    p.OnTrack settings problem := by
  induction turns with
  | refl => exact onTrack_initial unlimited
  | tail _ turn ih => exact ih.turn unbounded long turn

theorem like_of_turns (unbounded : settings.budget.unlimited = true) {meter : Meter}
    (like : meter.Like (firstMeter settings))
    (turns : Turns workers settings problem (initial problem meter) p) :
    p.meter.Like (firstMeter settings) := by
  induction turns with
  | refl => exact like
  | tail _ turn ih =>
      refine (like_turn ?_ ?_ turn).trans ih
      · rw [ih.budget]
        exact unbounded
      · rw [ih.startedAt]
        rfl

end Pool

theorem eq_solve_of_returns (unbounded : settings.budget.unlimited = true)
    {result : Except Fault Outcome} (returns : Returns workers settings problem result) :
    result = solve settings problem := by
  have unlimited := unlimited_firstMeter unbounded
  have like := Meter.like_charge (m := firstMeter settings) unbounded
  have granting := unlimited.charged
  cases returns with
  | direct decided => exact (solve_of_decided decided).symm
  | refused _ charged =>
      rw [unlimited.charge] at charged
      cases charged
  | unfit undecided _ fails => exact (solve_of_unfit unbounded undecided fails).symm
  | @pooled meter p answer undecided charged passes turns ended answers =>
      rw [charged] at like granting
      have long : 2 ≤ problem.horizon := two_le_horizon undecided
      have like := Pool.like_of_turns unbounded like turns
      rw [solve_eq_inOrder unbounded undecided passes]
      cases Pool.onTrack_of_turns unbounded long granting turns with
      | undecided open? _ _ _ => cases answers.symm.trans open?
      | @decided found decided same =>
          cases answers.symm.trans decided
          rw [← same]
          have outcome : ∀ verdict, p.outcome problem verdict =
              summary settings problem (verdict, p.statistics) := by
            intro verdict
            rw [Pool.outcome, summary, like.elapsed]
          cases answer with
          | error fault => rfl
          | ok verdict => exact congrArg Except.ok (outcome verdict)

/-! ## The threads come to an end -/

def Stage.weight (settings : SearchSettings) (problem : Problem) : Stage → Nat
  | .waiting =>
      Frame.freshWeight (task settings problem).width (problem.horizon - 2) + 2
  | .running m => m.weight (task settings problem) + 1
  | .done _ => 0

namespace Pool

variable {p q : Pool}

def branchesWeight (settings : SearchSettings) (problem : Problem) (branches : List Branch) : Nat :=
  (branches.map (fun b => b.stage.weight settings problem + 1)).sum

def weight (settings : SearchSettings) (problem : Problem) (p : Pool) : Nat :=
  p.unsubmitted.length *
      (Frame.freshWeight (task settings problem).width (problem.horizon - 2) + 4) +
    branchesWeight settings problem p.branches + (if p.answer?.isNone then 1 else 0)

end Pool

theorem begin_lighter (settings : SearchSettings) (problem : Problem) (s : State)
    (meter : Meter) :
    (Stage.begin settings problem s meter).1.weight settings problem <
      Stage.waiting.weight settings problem := by
  unfold Stage.begin
  cases settings.table with
  | error misuse => exact Nat.succ_pos _
  | ok table =>
      dsimp only
      cases settings.checkStart problem.schema s (.whole 2) with
      | error failure => exact Nat.succ_pos _
      | ok passes =>
          simp only [Stage.weight, Machine.initial, Machine.weight, Frame.totalWeight,
            Frame.weight, Frame.fresh]
          omega

theorem work_lighter (settings : SearchSettings) (problem : Problem) (m : Machine)
    (meter : Meter) :
    (Stage.work settings problem m meter).1.weight settings problem <
      (Stage.running m).weight settings problem := by
  unfold Stage.work
  cases next : Machine.step (task settings problem) { m with meter } with
  | going n =>
      have lighter : n.weight (task settings problem) < m.weight (task settings problem) :=
        Machine.weight_lt_of_step (m := { m with meter }) next
      exact Nat.succ_lt_succ lighter
  | halted ending n => exact Nat.succ_pos _

namespace Pool

variable {p q : Pool}

/-- Each turn makes a pool lighter. -/
theorem weight_lt_of_turn (turn : Turn workers settings problem p q) :
    q.weight settings problem < p.weight settings problem := by
  cases turn with
  | @submit choice rest undecided next =>
      cases problem.schema.advance settings.checked problem.initial choice (.whole 1) with
      | error failure =>
          simp only [Pool.submit, weight, undecided]
          simp
      | ok s =>
          simp only [Pool.submit, weight, branchesWeight, next, List.map_append, List.sum_append,
            List.length_cons, Nat.add_mul, Stage.weight]
          simp
          omega
  | @begin before after b split waits idle =>
      have lighter := begin_lighter settings problem b.start p.meter
      simp only [weight, branchesWeight, split, List.map_append, List.map_cons, List.sum_append,
        List.sum_cons, waits]
      omega
  | @work before after b m split runs =>
      have lighter := work_lighter settings problem m p.meter
      simp only [weight, branchesWeight, split, List.map_append, List.map_cons, List.sum_append,
        List.sum_cons, runs]
      omega
  | @take b rest result undecided submitted first done =>
      cases result with
      | error fault => simp [take, weight, undecided]
      | ok outcome =>
          simp only [take]
          cases outcome.verdict with
          | noPlan => simp [weight, branchesWeight, first, undecided]
          | aborted reason => simp [weight, undecided]
          | success timeline => simp [weight, undecided]
  | finish undecided submitted none => simp [weight, undecided]

/-- A pool that is not over is one in which a thread can take a turn. -/
theorem exists_turn (settings : SearchSettings) (problem : Problem) (positive : 1 ≤ workers)
    (more : ¬ p.IsOver) :
    ∃ q, Turn workers settings problem p q := by
  by_cases runs : ∃ b ∈ p.branches, ∃ m, b.stage = .running m
  · obtain ⟨b, member, m, runs⟩ := runs
    obtain ⟨before, after, split⟩ := List.append_of_mem member
    exact ⟨_, .work split runs⟩
  · by_cases waits : ∃ b ∈ p.branches, b.stage = .waiting
    · obtain ⟨b, member, waits⟩ := waits
      obtain ⟨before, after, split⟩ := List.append_of_mem member
      have idle : p.branches.countP (·.stage.isRunning) = 0 := by
        rw [List.countP_eq_zero]
        intro other present busy
        cases stage : other.stage with
        | running m => exact runs ⟨other, present, m, stage⟩
        | waiting =>
            rw [stage] at busy
            cases busy
        | done result =>
            rw [stage] at busy
            cases busy
      exact ⟨_, .begin split waits (by omega)⟩
    · have done : ∀ b ∈ p.branches, ∃ result, b.stage = .done result := by
        intro b member
        cases stage : b.stage with
        | waiting => exact absurd ⟨b, member, stage⟩ waits
        | running m => exact absurd ⟨b, member, m, stage⟩ runs
        | done result => exact ⟨result, rfl⟩
      cases undecided : p.answer? with
      | some answer => exact absurd ⟨by rw [undecided]; rfl, done⟩ more
      | none =>
          cases submitted : p.unsubmitted with
          | cons choice rest => exact ⟨_, .submit undecided submitted⟩
          | nil =>
              cases left : p.branches with
              | nil => exact ⟨_, .finish undecided submitted left⟩
              | cons b rest =>
                  obtain ⟨result, ends⟩ := done b (by simp [left])
                  exact ⟨_, .take undecided submitted left ends⟩

/-- From every pool the threads can take turns until it is over. -/
theorem exists_turns (settings : SearchSettings) (problem : Problem) (positive : 1 ≤ workers)
    (p : Pool) : ∃ q, Turns workers settings problem p q ∧ q.IsOver := by
  induction weighs : p.weight settings problem using Nat.strongRecOn generalizing p with
  | ind n ih =>
      by_cases ended : p.IsOver
      · exact ⟨p, .refl, ended⟩
      · obtain ⟨next, turn⟩ := exists_turn settings problem positive ended
        obtain ⟨last, turns, ended⟩ := ih _ (weighs ▸ weight_lt_of_turn turn) next rfl
        exact ⟨last, .head turn turns, ended⟩

end Pool

/-- Whatever it begins with, a search by branches can come to a result. -/
theorem exists_returnsFrom (positive : 1 ≤ workers) (first : Meter) :
    ∃ result, ReturnsFrom workers settings problem first result := by
  cases decided : (problem.horizon = 1 || problem.isGoal problem.initial : Bool) with
  | true => exact ⟨_, .direct decided⟩
  | false =>
      cases charged : first.charge with
      | mk refusal meter =>
          cases refusal with
          | some reason => exact ⟨_, .refused decided charged⟩
          | none =>
              cases passes : settings.checkStart problem.schema problem.initial (.whole 1) with
              | error failure => exact ⟨_, .unfit decided charged passes⟩
              | ok passed =>
                  obtain ⟨p, turns, ended⟩ := Pool.exists_turns settings problem positive
                    (Pool.initial problem meter)
                  obtain ⟨answer, answers⟩ := Option.isSome_iff_exists.mp ended.1
                  exact ⟨_, .pooled decided charged passes turns ended answers⟩

/-- With an unlimited budget the threads come to one result, whatever turns they take. -/
theorem returns_iff (unbounded : settings.budget.unlimited = true) (positive : 1 ≤ workers)
    (result : Except Fault Outcome) :
    Returns workers settings problem result ↔ result = solve settings problem := by
  constructor
  · exact eq_solve_of_returns unbounded
  · rintro rfl
    obtain ⟨result, returns⟩ :=
      @exists_returnsFrom workers settings problem positive (firstMeter settings)
    exact eq_solve_of_returns unbounded returns ▸ returns

/--
A search by branches returns, whatever turns its threads take: they cannot take
turns forever, and when none can take a turn the search is over.  Whatever it
returns has the verdict of a search without branches, and is no error if the
table has room.
-/
theorem returns_verdict
    (fit : Search.Fit problem.schema settings problem.initial 1
      (Meter.fresh settings.budget .still)) (positive : 1 ≤ workers) :
    Returns workers settings problem (solve settings problem) ∧
      WellFounded (fun later earlier => Turn workers settings problem earlier later) ∧
      (∀ p, (∀ q, ¬ Turn workers settings problem p q) → p.IsOver) ∧
      ∀ result, Returns workers settings problem result →
        result.map (·.verdict) = (Search.solve settings problem).map (·.verdict) ∧
        (settings.HasRoom → ∃ outcome, result = .ok outcome) := by
  have unbounded := fit.unlimited.unbounded
  refine ⟨(returns_iff unbounded positive _).mpr rfl, ?_, ?_, ?_⟩
  · exact Subrelation.wf Pool.weight_lt_of_turn (measure (Pool.weight settings problem)).wf
  · intro p stuck
    apply Classical.byContradiction
    intro more
    obtain ⟨q, turn⟩ := Pool.exists_turn settings problem positive more
    exact stuck q turn
  · intro result returns
    have same : result.map (·.verdict) = (Search.solve settings problem).map (·.verdict) := by
      rw [eq_solve_of_returns unbounded returns]
      exact solve_verdict fit
    refine ⟨same, fun room => ?_⟩
    have order : (1 : Int) ≤ problem.horizon := by exact_mod_cast problem.horizon_pos
    have verdict := (fit.run room.roomy problem.goal (by decide) order).1
    obtain ⟨outcome, returned, _⟩ := Except.exists_of_map_eq_ok (same.trans verdict)
    exact ⟨outcome, returned⟩

def loneDiscProblem : Problem :=
  ⟨Search.loneDisc, Search.loneDiscStart, Search.loneDiscGoal, 5, by decide⟩

theorem returns_verdict_loneDisc :
    ∃ outcome, Returns 2 {} loneDiscProblem (.ok outcome) ∧
      (Search.solve {} loneDiscProblem).map (·.verdict) = .ok outcome.verdict := by
  obtain ⟨returns, _, _, agrees⟩ :=
    @returns_verdict 2 {} loneDiscProblem Search.unhindered_loneDisc.toFit (by decide)
  obtain ⟨same, ends⟩ := agrees _ returns
  obtain ⟨outcome, result⟩ := ends Search.unhindered_loneDisc.room
  rw [result] at returns same
  exact ⟨outcome, returns, same.symm⟩

end Branching

end StackingPlanner
