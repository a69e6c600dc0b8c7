import StackingPlanner.Proofs.Search.Threads

/-!
# Searching branch by branch is one way to take turns

The threads may take their turns so that the branches are submitted, searched
and taken one after another.  What then comes of them is what the search by
branches in order returns, so that is one of the results that threads can come
to.  Once a pool is decided and its meter was cancelled, no turn changes what is
returned.
-/

namespace StackingPlanner

namespace Meter

theorem started_charge {m : Meter} (started : m.startedAt.isSome = true) :
    m.charge.2.startedAt.isSome = true := by
  unfold charge
  split
  · exact started
  · split
    · exact started
    · split
      · exact started
      · dsimp only [elapsed]
        split <;> exact started

theorem started_start (m : Meter) : m.start.startedAt.isSome = true := by
  unfold Meter.start
  split
  · rename_i started
    rw [started]
    rfl
  · rfl

end Meter

namespace Branching

variable {workers : Nat} {settings : SearchSettings} {problem : Problem} {p q : Pool}

def awaiting (branches : List (Choice × State)) : List Branch :=
  branches.map (fun branch => ⟨branch.1, branch.2, .waiting⟩)

namespace Pool

/-! ## After the decision -/

theorem started_turn (started : p.meter.startedAt.isSome = true)
    (turn : Turn workers settings problem p q) : q.meter.startedAt.isSome = true := by
  cases turn with
  | @submit choice rest _ _ =>
      cases problem.schema.advance settings.checked problem.initial choice (.whole 1) <;>
        exact started
  | begin _ _ _ =>
      dsimp only
      rw [begin_meter, Meter.start_of_started started]
      exact started
  | @work _ _ _ m _ _ =>
      dsimp only
      rw [work_meter]
      rcases (Machine.move_step (task settings problem) { m with meter := p.meter }).meter_eq with
        same | charged
      · rw [same]
        exact started
      · rw [charged]
        exact Meter.started_charge started
  | @take b rest result _ _ _ _ =>
      cases result with
      | error fault => exact started
      | ok outcome =>
          simp only [take]
          cases outcome.verdict <;> exact started
  | finish _ _ _ => exact started

/-- A decided pool keeps its answer and its statistics, and its meter once that was cancelled. -/
structure Settled (p q : Pool) : Prop where
  answer : q.answer? = p.answer?
  statistics : q.statistics = p.statistics
  meter : p.meter.cancelled = true → q.meter = p.meter

theorem settled_turn (decided : p.answer?.isSome = true)
    (started : p.meter.startedAt.isSome = true) (turn : Turn workers settings problem p q) :
    p.Settled q := by
  cases turn with
  | submit undecided _ => simp [undecided] at decided
  | begin _ _ _ =>
      refine ⟨rfl, rfl, fun _ => ?_⟩
      dsimp only
      rw [begin_meter, Meter.start_of_started started]
  | @work _ _ _ m _ _ =>
      refine ⟨rfl, rfl, fun cancelled => ?_⟩
      dsimp only
      rw [work_meter]
      rcases (Machine.move_step (task settings problem) { m with meter := p.meter }).meter_eq with
        same | charged
      · exact same
      · rw [charged, Meter.charge_of_cancelled cancelled]
  | take undecided _ _ _ => simp [undecided] at decided
  | finish undecided _ _ => simp [undecided] at decided

theorem settled_turns (decided : p.answer?.isSome = true)
    (started : p.meter.startedAt.isSome = true) (turns : Turns workers settings problem p q) :
    p.Settled q := by
  suffices settled : p.Settled q ∧ q.meter.startedAt.isSome = true from settled.1
  induction turns with
  | refl => exact ⟨⟨rfl, rfl, fun _ => rfl⟩, started⟩
  | tail _ turn ih =>
      obtain ⟨settled, started⟩ := ih
      have next := settled_turn (settled.answer ▸ decided) started turn
      refine ⟨⟨next.answer.trans settled.answer, next.statistics.trans settled.statistics,
        fun cancelled => ?_⟩, started_turn started turn⟩
      have same := settled.meter cancelled
      exact (next.meter (same ▸ cancelled)).trans same

/-! ## One branch after another -/

/-- All choices can be submitted one after another, unless one of them is refused. -/
theorem turns_submit {choices : List Choice} (undecided : p.answer? = none)
    (left : p.unsubmitted = choices) :
    match successors problem.schema settings.checked problem.initial choices with
    | .ok branches => Turns workers settings problem p
        { p with unsubmitted := [], branches := p.branches ++ awaiting branches }
    | .error failure => ∃ q, Turns workers settings problem p q ∧
        q.answer? = some (.error (.failure failure)) := by
  induction choices generalizing p with
  | nil =>
      obtain ⟨unsubmitted, branches, meter, statistics, answer⟩ := p
      cases left
      have same : branches ++ awaiting [] = branches := List.append_nil branches
      simp only [successors, same]
      exact .refl
  | cons choice rest ih =>
      have turn : Turn workers settings problem p _ := .submit undecided left
      rw [successors]
      cases advanced : problem.schema.advance settings.checked problem.initial choice
          (.whole 1) with
      | error failure =>
          rw [advanced] at turn
          exact ⟨_, .single turn, rfl⟩
      | ok s =>
          rw [advanced] at turn
          have onward := ih (p := p.submit choice rest (.ok s)) undecided rfl
          simp only [bind, Except.bind]
          cases made : successors problem.schema settings.checked problem.initial rest with
          | error failure =>
              rw [made] at onward
              obtain ⟨q, turns, decided⟩ := onward
              exact ⟨q, .head turn turns, decided⟩
          | ok branches =>
              rw [made] at onward
              have same : p.branches ++ [⟨choice, s, .waiting⟩] ++ awaiting branches =
                  p.branches ++ awaiting ((choice, s) :: branches) := by
                simp [awaiting]
              simp only [Pool.submit, same] at onward
              exact .head turn onward

/-- A worker can carry the search of a branch to its end. -/
theorem turns_work {before after : List Branch} {b : Branch} {m : Machine}
    (split : p.branches = before ++ b :: after) (runs : b.stage = .running m) :
    Turns workers settings problem p
      { p with
        branches := before ++
          { b with
            stage := .done (Search.conclude settings 2
              (Machine.run (task settings problem) { m with meter := p.meter }).1
              (Machine.run (task settings problem)
                { m with meter := p.meter }).2.statistics) } :: after
        meter := (Machine.run (task settings problem) { m with meter := p.meter }).2.meter } := by
  generalize given : ({ m with meter := p.meter } : Machine) = start
  induction start using Machine.run.induct (task settings problem) generalizing p b m with
  | case1 start n next ih =>
      have turn : Turn workers settings problem p _ := .work split runs
      have worked : Stage.work settings problem m p.meter = (.running n, n.meter) := by
        rw [Stage.work, given, next]
      rw [worked] at turn
      rw [Machine.run_of_going next]
      exact .head turn (ih (b := { b with stage := .running n }) rfl rfl rfl)
  | case2 start ending n halts =>
      have turn : Turn workers settings problem p _ := .work split runs
      have worked : Stage.work settings problem m p.meter =
          (.done (Search.conclude settings 2 ending n.statistics), n.meter) := by
        rw [Stage.work, given, halts]
      rw [worked] at turn
      rw [Machine.run_of_halted halts]
      exact .single turn

/-- If no worker is busy, one can search a branch that waits and come to what a search comes to. -/
theorem turns_branch (positive : 1 ≤ workers) (long : 2 ≤ problem.horizon)
    (idle : ∀ b ∈ p.branches, b.stage.isRunning = false) {before after : List Branch} {b : Branch}
    (split : p.branches = before ++ b :: after) (waits : b.stage = .waiting) :
    Turns workers settings problem p
      { p with
        branches := before ++
          { b with
            stage := .done (Search.run problem.schema settings b.start problem.goal
              problem.horizon 2 p.meter).1 } :: after
        meter := (Search.run problem.schema settings b.start problem.goal
          problem.horizon 2 p.meter).2 } := by
  have inOrder : ¬ ((2 : Int) < 1 ∨ (problem.horizon : Int) < 2) := by omega
  have left : ((problem.horizon : Int) - 2).toNat = problem.horizon - 2 := by omega
  have none : p.branches.countP (·.stage.isRunning) = 0 := by
    rw [List.countP_eq_zero]
    intro other member
    rw [idle other member]
    exact Bool.false_ne_true
  have turn : Turn workers settings problem p _ := .begin split waits (by omega)
  cases made : settings.table with
  | error misuse =>
      have begun : Stage.begin settings problem b.start p.meter =
          (.done (.error misuse), p.meter.start) := by
        simp only [Stage.begin, made]
      rw [begun] at turn
      rw [Search.run_misuse inOrder made]
      exact .single turn
  | ok table =>
      cases passes : settings.checkStart problem.schema b.start (.whole 2) with
      | error failure =>
          have begun : Stage.begin settings problem b.start p.meter =
              (.done (.error failure), p.meter.start) := by
            simp only [Stage.begin, made, passes]
          rw [begun] at turn
          have ended : Search.run problem.schema settings b.start problem.goal problem.horizon 2
              p.meter = (.error failure, p.meter.start) := by
            simp only [Search.run, if_neg inOrder, Search.runFrom, made, passes]
          rw [ended]
          exact .single turn
      | ok passed =>
          have begun : Stage.begin settings problem b.start p.meter =
              (.running (.initial (problem.horizon - 2) b.start table p.meter.start),
                p.meter.start) := by
            simp only [Stage.begin, made, passes]
          rw [begun] at turn
          rw [Search.run_eq inOrder made passes, left]
          let m := Machine.initial (problem.horizon - 2) b.start table p.meter.start
          let busy : Branch := { b with stage := .running m }
          have work : Turns workers settings problem
              { p with branches := before ++ busy :: after, meter := p.meter.start } _ :=
            turns_work rfl rfl
          exact .head turn work

/-- How a pool is decided when the search of its branches in order ends with findings. -/
structure Decides (findings : Findings) (q : Pool) : Prop where
  answer : q.answer? = some (.ok findings.1)
  statistics : q.statistics = findings.2.1
  meter : q.meter = findings.2.2.2
  /-- No turn is left that could charge the meter. -/
  quiet : q.meter.cancelled = true ∨ q.branches = []

/-- The threads can take turns so that a pool is decided by given findings, or by a fault. -/
def ComesTo (workers : Nat) (settings : SearchSettings) (problem : Problem) (p : Pool) :
    Except Fault Findings → Prop
  | .ok findings => ∃ q, Turns workers settings problem p q ∧ q.Decides findings
  | .error fault => ∃ q, Turns workers settings problem p q ∧ q.answer? = some (.error fault)

theorem ComesTo.of_turns {result : Except Fault Findings}
    (onward : q.ComesTo workers settings problem result)
    (turns : Turns workers settings problem p q) : p.ComesTo workers settings problem result := by
  cases result with
  | ok findings =>
      obtain ⟨r, later, decides⟩ := onward
      exact ⟨r, turns.trans later, decides⟩
  | error fault =>
      obtain ⟨r, later, decided⟩ := onward
      exact ⟨r, turns.trans later, decided⟩

theorem comesTo_search (positive : 1 ≤ workers) (long : 2 ≤ problem.horizon)
    (branches : List (Choice × State)) (explored : List Outcome) (undecided : p.answer? = none)
    (submitted : p.unsubmitted = []) (left : p.branches = awaiting branches) :
    p.ComesTo workers settings problem
      (search settings problem branches p.statistics explored p.meter) := by
  induction branches generalizing p explored with
  | nil => exact ⟨_, .single (.finish undecided submitted left), ⟨rfl, rfl, rfl, .inr left⟩⟩
  | cons branch rest ih =>
      obtain ⟨choice, s⟩ := branch
      have idle : ∀ b ∈ p.branches, b.stage.isRunning = false := by
        intro b member
        rw [left] at member
        obtain ⟨waiting, _, rfl⟩ := List.mem_map.mp member
        rfl
      have split : p.branches = [] ++ ⟨choice, s, .waiting⟩ :: awaiting rest := left
      have turns : Turns workers settings problem p _ := turns_branch positive long idle split rfl
      rw [search]
      generalize Search.run problem.schema settings s problem.goal problem.horizon 2 p.meter =
        found at turns ⊢
      obtain ⟨result, meter⟩ := found
      let searched : Pool :=
        { p with branches := ⟨choice, s, .done result⟩ :: awaiting rest, meter }
      have undecidedYet : searched.answer? = none := undecided
      have turns := turns.tail (.take undecidedYet submitted rfl rfl)
      cases result with
      | error fault => exact ⟨_, turns, rfl⟩
      | ok outcome =>
          obtain ⟨verdict, counts, step⟩ := outcome
          cases verdict with
          | noPlan =>
              let taken : Pool := { p with
                branches := awaiting rest, meter, statistics := p.statistics.merge counts }
              exact (ih (p := taken) _ undecided submitted rfl).of_turns turns
          | aborted reason => exact ⟨_, turns, ⟨rfl, rfl, rfl, .inl rfl⟩⟩
          | success timeline => exact ⟨_, turns, ⟨rfl, rfl, rfl, .inl rfl⟩⟩

theorem comesTo_inOrder (positive : 1 ≤ workers) (long : 2 ≤ problem.horizon) (meter : Meter) :
    (initial problem meter).ComesTo workers settings problem
      (Fault.lift (successors problem.schema settings.checked problem.initial
        (problem.schema.candidates problem.initial)) >>= fun branches =>
          search settings problem branches (Counts.zero.visit 1) [] meter) := by
  have submitted := @turns_submit workers settings problem (initial problem meter) _ rfl rfl
  have every : (initial problem meter).unsubmitted =
      problem.schema.candidates problem.initial := rfl
  rw [every] at submitted
  cases made : successors problem.schema settings.checked problem.initial
      (problem.schema.candidates problem.initial) with
  | error failure =>
      rw [made] at submitted
      exact submitted
  | ok branches =>
      rw [made] at submitted
      have onward := @comesTo_search workers settings problem
        { initial problem meter with unsubmitted := [], branches := awaiting branches }
        positive long branches [] rfl rfl rfl
      exact onward.of_turns submitted

theorem started_turns (started : p.meter.startedAt.isSome = true)
    (turns : Turns workers settings problem p q) : q.meter.startedAt.isSome = true := by
  induction turns with
  | refl => exact started
  | tail _ turn ih => exact started_turn ih turn

/-- From a decided pool the threads come to an end, and its answer stays. -/
theorem exists_over (positive : 1 ≤ workers) {answer : Except Fault Verdict}
    (decided : q.answer? = some answer) (started : q.meter.startedAt.isSome = true) :
    ∃ r, Turns workers settings problem q r ∧ r.IsOver ∧ q.Settled r := by
  obtain ⟨r, turns, ended⟩ := exists_turns settings problem positive q
  exact ⟨r, turns, ended, settled_turns (decided ▸ rfl) started turns⟩

theorem Decides.exists_over {findings : Findings} (decides : q.Decides findings)
    (positive : 1 ≤ workers) (started : q.meter.startedAt.isSome = true) :
    ∃ r, Turns workers settings problem q r ∧ r.IsOver ∧ r.Decides findings := by
  rcases decides.quiet with cancelled | none
  · obtain ⟨r, turns, ended, settled⟩ := Pool.exists_over positive decides.answer started
    have same := settled.meter cancelled
    exact ⟨r, turns, ended, settled.answer.trans decides.answer,
      settled.statistics.trans decides.statistics, same.trans decides.meter,
      .inl (same ▸ cancelled)⟩
  · refine ⟨q, .refl, ⟨decides.answer ▸ rfl, fun b member => ?_⟩, decides⟩
    rw [none] at member
    cases member

end Pool

/-- What branching after a granted visit returns is a result that threads can come to. -/
theorem returnsFrom_branch (positive : 1 ≤ workers)
    (undecided : (problem.horizon = 1 || problem.isGoal problem.initial) = false)
    {first meter : Meter} (charged : first.charge = (none, meter))
    (started : first.startedAt.isSome = true) :
    ReturnsFrom workers settings problem first
      ((branch settings problem meter).map (·.outcome)) := by
  have long := two_le_horizon undecided
  have later := Meter.started_charge started
  rw [charged] at later
  unfold branch
  cases passes : settings.checkStart problem.schema problem.initial (.whole 1) with
  | error failure => exact .unfit undecided charged passes
  | ok passed =>
      have returnsFrom_of_fault : ∀ {fault : Fault},
          (Pool.initial problem meter).ComesTo workers settings problem (.error fault) →
            ReturnsFrom workers settings problem first (.error fault) := by
        rintro fault ⟨q, turns, answer⟩
        obtain ⟨r, more, ended, settled⟩ :=
          Pool.exists_over positive answer (Pool.started_turns later turns)
        exact .pooled undecided charged passes (turns.trans more) ended
          (settled.answer.trans answer)
      have comes := @Pool.comesTo_inOrder workers settings problem positive long meter
      simp only [bind, Except.bind] at comes ⊢
      cases made : successors problem.schema settings.checked problem.initial
          (problem.schema.candidates problem.initial) with
      | error failure =>
          rw [made] at comes
          exact returnsFrom_of_fault comes
      | ok branches =>
          rw [made] at comes
          dsimp only [Fault.lift] at comes ⊢
          cases found : search settings problem branches (Counts.zero.visit 1) [] meter with
          | error fault =>
              rw [found] at comes
              exact returnsFrom_of_fault comes
          | ok findings =>
              rw [found] at comes
              obtain ⟨q, turns, decides⟩ := comes
              obtain ⟨r, more, ended, decides⟩ :=
                decides.exists_over positive (Pool.started_turns later turns)
              have returns := ReturnsFrom.pooled undecided charged passes (turns.trans more) ended
                decides.answer
              have count := successors_length made
              simp only [Except.map, Pool.outcome, decides.statistics, decides.meter] at returns
              simp only [Except.map, pure, Except.pure, count]
              exact returns

/-- What the search by branches in order returns is a result that threads can come to. -/
theorem returns_solve (positive : 1 ≤ workers) :
    Returns workers settings problem (solve settings problem) := by
  cases decided : (problem.horizon = 1 || problem.isGoal problem.initial : Bool) with
  | true =>
      rw [solve_of_decided decided]
      exact .direct decided
  | false =>
      have first : (Meter.fresh settings.budget .still).start = firstMeter settings := rfl
      unfold solve explore
      simp only [decided, Bool.false_eq_true, if_false, first]
      split
      · rename_i reason meter charged
        exact .refused decided charged
      · rename_i meter charged
        exact returnsFrom_branch positive decided charged (Meter.started_start _)

end Branching

end StackingPlanner
