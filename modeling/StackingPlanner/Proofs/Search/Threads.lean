import StackingPlanner.Planner.Returns
import StackingPlanner.Proofs.Search.Budgeted
import StackingPlanner.Proofs.Search.Pool

/-!
# Threads that share a budget

A search by branches that are searched at the same time may be cut short, and
which of its branches is cut short depends on the turns of the threads.  But the
results are taken in order, and each of them says what the plain search finds
from its branch, so what is returned says what the plain search finds.
-/

namespace StackingPlanner

namespace Branching

variable {workers : Nat} {settings : SearchSettings} {problem : Problem}

def plainAfter? (problem : Problem) (s : State) : Option Steps :=
  problem.schema.leftmost? problem.goal.toList (problem.horizon - 2) s

def plain? (problem : Problem) : Option Steps :=
  Schema.tryEach (plainAfter? problem) problem.initial (problem.schema.candidates problem.initial)

/-- A branch that has done nothing but search for what the plain search finds from its start. -/
structure Branch.Honest (settings : SearchSettings) (problem : Problem) (b : Branch) : Prop where
  start : b.start = problem.initial.after b.choice
  running : ∀ m, b.stage = .running m →
    m.Sound (task settings problem) b.start (problem.horizon - 2) ∧ 0 ≤ m.statistics.nodes
  done : ∀ result, b.stage = .done result →
    ∃ outcome, result = .ok outcome ∧ outcome.Answers b.start (plainAfter? problem b.start)

/--
The invariant of a pool under every budget: before it is decided, the choices
whose results were taken have failed, and afterwards its answer says what the
plain search finds.
-/
inductive Pool.Honest (settings : SearchSettings) (problem : Problem) (p : Pool) : Prop where
  | undecided (undecided : p.answer? = none) (counted : 0 ≤ p.statistics.nodes)
      (honest : ∀ b ∈ p.branches, b.Honest settings problem) {failed : List Choice}
      (candidates : problem.schema.candidates problem.initial =
        failed ++ (p.branches.map (·.choice) ++ p.unsubmitted))
      (fails : ∀ choice ∈ failed, plainAfter? problem (problem.initial.after choice) = none)
  | decided {verdict : Verdict} (decided : p.answer? = some (.ok verdict))
      (counted : 0 ≤ p.statistics.nodes)
      (answers : verdict.Answers problem.initial (plain? problem))

section

variable (accepted : problem.schema.Accepted)
  (admits : settings.Admits problem.schema problem.initial)

include accepted admits

theorem Branch.Honest.begin {b : Branch} (honest : b.Honest settings problem)
    (allowed : problem.schema.Allows problem.initial b.choice) (room : settings.HasRoom)
    (meter : Meter) :
    ({ b with stage := (Stage.begin settings problem b.start meter).1 } : Branch).Honest
      settings problem := by
  obtain ⟨table, made, new⟩ := room.roomy
  have later := admits.after accepted allowed
  have begun : (Stage.begin settings problem b.start meter).1 =
      .running (.initial (problem.horizon - 2) b.start table meter.start) := by
    simp only [Stage.begin, made, honest.start, later.checkStart accepted]
  refine ⟨honest.start, fun m runs => ?_, fun result done => ?_⟩
  · cases begun.symm.trans runs
    exact ⟨Machine.sound_initial (SearchTask.trusts_of_empty new) _, Int.le_refl 0⟩
  · cases begun.symm.trans done

theorem Branch.Honest.work {b : Branch} {m : Machine} (honest : b.Honest settings problem)
    (allowed : problem.schema.Allows problem.initial b.choice) (runs : b.stage = .running m)
    (meter : Meter) :
    ({ b with stage := (Stage.work settings problem m meter).1 } : Branch).Honest
      settings problem := by
  obtain ⟨sound, counted⟩ := honest.running m runs
  have smooth : problem.schema.Smooth settings.checked b.start :=
    honest.start ▸ (admits.after accepted allowed).smooth accepted
  have metered : ({ m with meter } : Machine).Sound (task settings problem) b.start
      (problem.horizon - 2) := ⟨sound.stack, sound.table⟩
  have more := Machine.nodes_le_step (task settings problem) { m with meter }
  refine ⟨honest.start, fun n running => ?_, fun result done => ?_⟩
  · dsimp only [Stage.work] at running
    split at running
    · rename_i next
      cases running
      rw [next] at more
      exact ⟨metered.move smooth (Machine.move_of_step next), counted.trans more⟩
    · cases running
  · dsimp only [Stage.work] at done
    split at done
    · cases done
    · rename_i ending n halts
      cases done
      rw [halts] at more
      exact Search.conclude_answers (metered.move smooth (Machine.move_of_halt halts))
        (counted.trans more)

end

namespace Pool

variable {p q : Pool}

/-- The threads cannot take turns forever. -/
theorem wellFounded_turn :
    WellFounded (fun later earlier => Turn workers settings problem earlier later) :=
  Subrelation.wf weight_lt_of_turn (measure (weight settings problem)).wf

/-- When no thread can take a turn, the search is over. -/
theorem isOver_of_stuck (positive : 1 ≤ workers)
    (stuck : ∀ q, ¬ Turn workers settings problem p q) : p.IsOver := by
  apply Classical.byContradiction
  intro more
  obtain ⟨q, turn⟩ := exists_turn settings problem positive more
  exact stuck q turn

theorem honest_initial (meter : Meter) : (initial problem meter).Honest settings problem :=
  have candidates : problem.schema.candidates problem.initial =
      [] ++ ((initial problem meter).branches.map (·.choice) ++
        (initial problem meter).unsubmitted) := rfl
  .undecided rfl (Int.zero_le_ofNat 1) (fun _ none => nomatch none) candidates
    (fun _ none => nomatch none)

theorem allowed_of_mem {b : Branch} {failed : List Choice}
    (candidates : problem.schema.candidates problem.initial =
      failed ++ (p.branches.map (·.choice) ++ p.unsubmitted)) (member : b ∈ p.branches) :
    problem.schema.Allows problem.initial b.choice := by
  rw [← Schema.mem_candidates_iff, candidates]
  simp only [List.mem_append, List.mem_map]
  exact .inr (.inl ⟨b, member, rfl⟩)

theorem Honest.submit (smooth : problem.schema.Smooth settings.checked problem.initial)
    (honest : p.Honest settings problem) {choice : Choice} {rest : List Choice}
    (undecided : p.answer? = none) (next : p.unsubmitted = choice :: rest) :
    (p.submit choice rest (problem.schema.advance settings.checked problem.initial choice
      (.whole 1))).Honest settings problem := by
  cases honest with
  | decided decided _ _ => cases undecided.symm.trans decided
  | undecided _ counted honest candidates fails =>
      have allowed : problem.schema.Allows problem.initial choice := by
        rw [← Schema.mem_candidates_iff, candidates, next]
        simp
      rw [smooth.advance allowed]
      refine .undecided undecided counted (fun b member => ?_) ?_ fails
      · rcases List.mem_append.mp member with earlier | here
        · exact honest b earlier
        · cases List.mem_singleton.mp here
          exact ⟨rfl, fun _ runs => (nomatch runs), fun _ done => (nomatch done)⟩
      · rw [candidates, next, Pool.submit, List.map_append, List.map_singleton, List.append_assoc,
          List.singleton_append]

theorem Honest.replace (honest : p.Honest settings problem) {before after : List Branch}
    {b : Branch} {stage : Stage} {meter : Meter} (split : p.branches = before ++ b :: after)
    (keeps : problem.schema.Allows problem.initial b.choice → b.Honest settings problem →
      ({ b with stage } : Branch).Honest settings problem) :
    { p with branches := before ++ { b with stage } :: after, meter }.Honest settings problem := by
  cases honest with
  | decided decided counted answers => exact .decided decided counted answers
  | undecided undecided counted honest candidates fails =>
      have present : b ∈ p.branches := by simp [split]
      refine .undecided undecided counted
        (forall_mem_replace split honest (keeps (allowed_of_mem candidates present))) ?_ fails
      rw [candidates, split]
      simp

theorem Honest.take (honest : p.Honest settings problem) {b : Branch} {rest : List Branch}
    {result : Except Fault Outcome} (undecided : p.answer? = none)
    (first : p.branches = b :: rest) (done : b.stage = .done result) :
    (p.take problem b.choice rest result).Honest settings problem := by
  cases honest with
  | decided decided _ _ => cases undecided.symm.trans decided
  | undecided _ counted honest candidates fails =>
      have here := honest b (by simp [first])
      obtain ⟨⟨verdict, counts, step⟩, rfl, answers, visits⟩ := here.done result done
      rw [here.start] at answers
      rw [first, List.map_cons, List.cons_append] at candidates
      have more : 0 ≤ (p.statistics.merge counts).nodes := Int.add_nonneg counted visits
      have skip : plain? problem =
          Schema.tryEach (plainAfter? problem) problem.initial
            (b.choice :: (rest.map (·.choice) ++ p.unsubmitted)) := by
        rw [plain?, candidates, Schema.tryEach_append_of_none fails]
      cases verdict with
      | noPlan =>
          refine .undecided undecided more (fun other member => honest other ?_)
            (candidates.trans (List.append_cons _ _ _)) (fun choice member => ?_)
          · have left : other ∈ rest := member
            simp [first, left]
          · rcases List.mem_append.mp member with earlier | last
            · exact fails choice earlier
            · cases List.mem_singleton.mp last
              exact answers
      | aborted reason => exact .decided rfl more trivial
      | success timeline =>
          obtain ⟨steps, found, rfl⟩ := answers
          refine .decided rfl more
            ⟨_, ?_, Timeline.precede_ofSteps problem.initial _ b.choice steps⟩
          rw [skip, Schema.tryEach_cons_of_some found]

theorem Honest.finish (honest : p.Honest settings problem) (undecided : p.answer? = none)
    (submitted : p.unsubmitted = []) (none : p.branches = []) :
    { p with answer? := some (.ok .noPlan) }.Honest settings problem := by
  cases honest with
  | decided decided _ _ => cases undecided.symm.trans decided
  | undecided _ counted _ candidates fails =>
      rw [submitted, none, List.map_nil, List.append_nil, List.append_nil] at candidates
      refine .decided rfl counted ?_
      rw [Verdict.Answers, plain?, Schema.tryEach_eq_none_iff, candidates]
      exact fails

section

variable (accepted : problem.schema.Accepted)
  (admits : settings.Admits problem.schema problem.initial) (room : settings.HasRoom)

include accepted admits room

theorem Honest.turn (honest : p.Honest settings problem)
    (turn : Turn workers settings problem p q) : q.Honest settings problem := by
  cases turn with
  | submit undecided next => exact honest.submit (admits.smooth accepted) undecided next
  | begin split _ _ =>
      exact honest.replace split
        (fun allowed branch => branch.begin accepted admits allowed room p.meter)
  | work split runs =>
      exact honest.replace split
        (fun allowed branch => branch.work accepted admits allowed runs p.meter)
  | take undecided _ first done => exact honest.take undecided first done
  | finish undecided submitted none => exact honest.finish undecided submitted none

theorem honest_of_turns {meter : Meter}
    (turns : Turns workers settings problem (initial problem meter) p) :
    p.Honest settings problem := by
  induction turns with
  | refl => exact honest_initial meter
  | tail _ turn ih => exact ih.turn accepted admits room turn

end

end Pool

/-- Whatever a search by branches returns says what the plain search finds. -/
theorem answers_of_returnsFrom (accepted : problem.schema.Accepted)
    (admits : settings.Admits problem.schema problem.initial) (room : settings.HasRoom)
    {first : Meter} {result : Except Fault Outcome}
    (returns : ReturnsFrom workers settings problem first result) :
    ∃ outcome, result = .ok outcome ∧ outcome.Answers problem.initial
      (problem.schema.leftmost? problem.goal.toList (problem.horizon - 1) problem.initial) := by
  cases returns with
  | direct decided =>
      have order : (1 : Int) ≤ problem.horizon := by exact_mod_cast problem.horizon_pos
      have left : ((problem.horizon : Int) - 1).toNat = problem.horizon - 1 := by omega
      rw [← left]
      exact Search.run_answers accepted admits room problem.goal (Int.le_refl 1) order first
  | refused undecided charged => exact ⟨_, rfl, trivial, Int.le_refl 0⟩
  | unfit undecided charged fails => cases fails.symm.trans (admits.checkStart accepted _)
  | @pooled meter p answer undecided charged passes turns ended answers =>
      have unmet : problem.initial.satisfies problem.goal.toList = false :=
        (Bool.or_eq_false_iff.mp undecided).2
      have long := two_le_horizon undecided
      have left : problem.horizon - 1 = problem.horizon - 2 + 1 := by omega
      cases Pool.honest_of_turns accepted admits room turns with
      | undecided open? => cases answers.symm.trans open?
      | @decided verdict decided counted said =>
          cases answers.symm.trans decided
          rw [left, Schema.leftmost?_succ_of_not unmet]
          exact ⟨_, rfl, said, counted⟩

end Branching

namespace Planner

theorem answers_of_returns {planner : Planner} {clock : Clock} {problem : Problem}
    (accepted : problem.schema.Accepted)
    (admits : planner.settings.Admits problem.schema problem.initial)
    (room : planner.settings.HasRoom) {result : Except Fault Finding}
    (returns : planner.Returns clock problem result) :
    ∃ outcome : Outcome, result = .ok (conclude problem outcome) ∧ outcome.Answers problem.initial
      (problem.schema.leftmost? problem.goal.toList (problem.horizon - 1) problem.initial) := by
  cases returns with
  | alone single =>
      have order : (1 : Int) ≤ problem.horizon := by exact_mod_cast problem.horizon_pos
      have left : ((problem.horizon : Int) - 1).toNat = problem.horizon - 1 := by omega
      obtain ⟨outcome, ends, answers⟩ := Search.run_answers accepted admits room problem.goal
        (Int.le_refl 1) order (Meter.fresh planner.settings.budget clock)
      rw [left] at answers
      exact ⟨outcome, congrArg (Except.map (conclude problem)) ends, answers⟩
  | together several employs returns =>
      obtain ⟨outcome, rfl, answers⟩ :=
        Branching.answers_of_returnsFrom accepted admits room returns
      exact ⟨outcome, rfl, answers⟩

end Planner

end StackingPlanner
