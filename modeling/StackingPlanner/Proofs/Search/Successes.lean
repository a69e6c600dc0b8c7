import StackingPlanner.Proofs.Search.Threads
import StackingPlanner.Proofs.Trail

/-!
# What every success shows

Whatever is known of the settings, the checks, the budget and the table of dead
ends: if a search succeeds, its timeline is that of a trail from the initial
state to the goal with as many choices as there are steps.  For this it is
enough that the frames of the stack are a route, each of them leading to the
next by a choice that can be made.
-/

namespace StackingPlanner

/-- A timeline along a trail of so many choices from a state to one in which a goal holds. -/
def Timeline.Attains (t : Timeline) (schema : Schema) (goal : List Literal) (start : State)
    (count : Nat) : Prop :=
  ∃ steps last, schema.Trail start steps last ∧ steps.length = count ∧
    t = Timeline.ofSteps start steps ∧ last.satisfies goal = true

def Verdict.Attains (v : Verdict) (schema : Schema) (goal : List Literal) (start : State)
    (count : Nat) : Prop :=
  ∀ t, v = .success t → t.Attains schema goal start count

namespace Timeline.Attains

variable {schema : Schema} {goal : List Literal} {s : State} {t : Timeline}

theorem precede {choice : Choice} {count : Nat} (allowed : schema.Allows s choice)
    (attains : t.Attains schema goal (s.after choice) count) :
    (t.precede s choice).Attains schema goal s (count + 1) := by
  obtain ⟨steps, last, trail, long, rfl, holds⟩ := attains
  exact ⟨_, last, .cons allowed trail, congrArg Nat.succ long, precede_ofSteps _ _ _ _, holds⟩

end Timeline.Attains

/-! ## The stack is a route -/

/-- Frames that lead from a start to a state, each by the choice that was tried last. -/
inductive Frame.Route (schema : Schema) (start : State) (count : Nat) :
    List Frame → State → Nat → Prop where
  | start : Route schema start count [] start count
  | along {f : Frame} {below : List Frame}
      (route : Route schema start count below f.state f.remaining) (remains : f.remaining ≠ 0)
      (allowed : schema.Allows f.state f.choice) :
      Route schema start count (f :: below) (f.state.after f.choice) (f.remaining - 1)

/-- The top frame of a stack is at the end of a route, and what frames still try can be done. -/
structure Frame.Routed (schema : Schema) (start : State) (count : Nat) (frames : List Frame) :
    Prop where
  route : ∀ f below, frames = f :: below → Route schema start count below f.state f.remaining
  untried : ∀ f ∈ frames, ∀ untried, f.pending = some untried →
    f.remaining ≠ 0 ∧ ∀ choice ∈ untried, schema.Allows f.state choice

namespace Frame

variable {schema : Schema} {goal : List Literal} {start : State} {count : Nat} {f : Frame}
  {below : List Frame}

theorem routed_fresh (schema : Schema) (start : State) (count : Nat) :
    Routed schema start count [Frame.fresh count start] where
  route f below same := by
    cases same
    exact .start
  untried f member untried pending := by
    cases List.mem_singleton.mp member
    cases pending

theorem Routed.pop (routed : Routed schema start count (f :: below)) :
    Routed schema start count below where
  route g rest same := by
    subst same
    have route := routed.route f _ rfl
    generalize f.state = s, f.remaining = remaining at route
    cases route with
    | along route _ _ => exact route
  untried g member := routed.untried g (List.mem_cons_of_mem _ member)

theorem Routed.push (routed : Routed schema start count (f :: below)) (remains : f.remaining ≠ 0)
    {choice : Choice} {untried : List Choice} (allowed : schema.Allows f.state choice)
    (others : ∀ other ∈ untried, schema.Allows f.state other) :
    Routed schema start count (Frame.fresh (f.remaining - 1) (f.state.after choice) ::
      ⟨f.remaining, f.state, choice, some untried⟩ :: below) where
  route g rest same := by
    cases same
    exact .along (routed.route f below rfl) remains allowed
  untried g member left pending := by
    rcases List.mem_cons.mp member with rfl | member
    · cases pending
    · rcases List.mem_cons.mp member with rfl | member
      · cases pending
        exact ⟨remains, others⟩
      · exact routed.untried g (List.mem_cons_of_mem _ member) left pending

/-- What goes on from the end of a route is, together with the route, a trail from the start. -/
theorem Route.attains {s last : State} {steps : Steps} {remaining : Nat}
    (route : Route schema start count below s remaining) (trail : schema.Trail s steps last)
    (long : steps.length = remaining) (holds : last.satisfies goal = true) :
    (Machine.unwind s steps below).Attains schema goal start count := by
  induction route generalizing steps with
  | start => exact ⟨steps, last, trail, long, rfl, holds⟩
  | @along f below route remains allowed ih =>
      refine ih (.cons allowed trail) ?_
      rw [List.length_cons, long]
      omega

end Frame

namespace Machine

variable {task : SearchTask} {start : State} {count : Nat}

/-- Each move that does not halt a machine keeps its stack a route. -/
theorem routed_next {m n : Machine} (routed : Frame.Routed task.schema start count m.frames)
    (move : Move task m (.going n)) : Frame.Routed task.schema start count n.frames := by
  cases move with
  | fail => exact routed.pop
  | prune => exact routed.pop
  | close => exact routed.pop
  | @descend f _ _ _ _ _ _ choice untried _ _ _ _ remains _ candidates advanced =>
      have allowed : ∀ other ∈ choice :: untried, task.schema.Allows f.state other :=
        fun other member => Schema.mem_candidates_iff.mp (candidates ▸ member)
      rw [Schema.eq_after_of_advance advanced]
      exact routed.push remains (allowed choice List.mem_cons_self)
        (fun other member => allowed other (List.mem_cons_of_mem _ member))
  | @retry f _ _ _ _ choice untried _ pending advanced =>
      obtain ⟨remains, allowed⟩ := routed.untried f List.mem_cons_self _ pending
      rw [Schema.eq_after_of_advance advanced]
      exact routed.push remains (allowed choice List.mem_cons_self)
        (fun other member => allowed other (List.mem_cons_of_mem _ member))

theorem attains_of_halt {m last : Machine} {ending : Ending}
    (routed : Frame.Routed task.schema start count m.frames)
    (halts : step task m = .halted ending last) {t : Timeline} (reached : ending = .reached t) :
    t.Attains task.schema task.goal.toList start count := by
  cases move_of_halt halts with
  | @reach f _ _ _ _ _ _ _ holds =>
      cases reached
      exact (routed.route f _ rfl).attains (.idle _ _ _) List.length_replicate holds
  | exhaust => cases reached
  | refuse => cases reached
  | breach => cases reached
  | lack => cases reached

theorem run_attains {table : Option StateTable} {meter : Meter} {t : Timeline}
    (reached : (run task (.initial count start table meter)).1 = .reached t) :
    t.Attains task.schema task.goal.toList start count := by
  obtain ⟨last, routed, halts⟩ := @run_keeps task
    (fun m => Frame.Routed task.schema start count m.frames)
    (fun m n routed next => routed_next routed (move_of_step next))
    (.initial count start table meter) (Frame.routed_fresh task.schema start count)
  exact attains_of_halt routed halts reached

end Machine

namespace Search

variable {schema : Schema} {settings : SearchSettings} {initial : State}
  {goal : OrderedSet Literal} {horizon startStep : Int} {meter : Meter}

theorem attains_of_conclude {ending : Ending} {statistics : Statistics} {outcome : Outcome}
    {start : State} {count : Nat}
    (reached : ∀ t, ending = .reached t → t.Attains schema goal.toList start count)
    (concluded : conclude settings startStep ending statistics = .ok outcome) :
    outcome.verdict.Attains schema goal.toList start count := by
  intro t success
  cases ending with
  | reached timeline =>
      cases concluded
      cases success
      exact reached t rfl
  | exhausted =>
      cases concluded
      cases success
  | refused refusal =>
      cases concluded
      cases success
  | broken failure => cases concluded
  | narrow => cases concluded

/-- Every success of a search attains the goal by the last step. -/
theorem attains_of_run {outcome : Outcome}
    (ended : (run schema settings initial goal horizon startStep meter).1 = .ok outcome) :
    outcome.verdict.Attains schema goal.toList initial (horizon - startStep).toNat := by
  obtain ⟨table, _, _, concluded⟩ := concluded_of_run ended
  exact attains_of_conclude (fun t reached => Machine.run_attains reached) concluded

theorem attains_of_run_problem {problem : Problem} {outcome : Outcome}
    (ended : (run problem.schema settings problem.initial problem.goal problem.horizon 1 meter).1 =
      .ok outcome) :
    outcome.verdict.Attains problem.schema problem.goal.toList problem.initial
      (problem.horizon - 1) := by
  have count : ((problem.horizon : Int) - 1).toNat = problem.horizon - 1 := by omega
  exact count ▸ attains_of_run ended

end Search

namespace Branching

variable {workers : Nat} {settings : SearchSettings} {problem : Problem}

/--
A branch that is searched from the state after a choice that can be made, and
whose success, if it is one, attains the goal by the last step.
-/
structure Branch.Attains (problem : Problem) (b : Branch) : Prop where
  start : b.start = problem.initial.after b.choice
  allowed : problem.schema.Allows problem.initial b.choice
  running : ∀ m, b.stage = .running m →
    Frame.Routed problem.schema b.start (problem.horizon - 2) m.frames
  done : ∀ outcome, b.stage = .done (.ok outcome) →
    outcome.verdict.Attains problem.schema problem.goal.toList b.start (problem.horizon - 2)

/--
Before a pool is decided, all that it tries can be done and its branches attain
the goal if they succeed; afterwards its answer does.
-/
inductive Pool.Attains (problem : Problem) (p : Pool) : Prop where
  | undecided (undecided : p.answer? = none)
      (unsubmitted : ∀ choice ∈ p.unsubmitted, problem.schema.Allows problem.initial choice)
      (branches : ∀ b ∈ p.branches, b.Attains problem)
  | decided {answer : Except Fault Verdict} (decided : p.answer? = some answer)
      (attains : ∀ verdict, answer = .ok verdict →
        verdict.Attains problem.schema problem.goal.toList problem.initial (problem.horizon - 1))

namespace Branch.Attains

variable {b : Branch}

theorem begin (attains : b.Attains problem) (settings : SearchSettings) (meter : Meter) :
    ({ b with stage := (Stage.begin settings problem b.start meter).1 } : Branch).Attains
      problem where
  start := attains.start
  allowed := attains.allowed
  running m runs := by
    simp only [Stage.begin] at runs
    split at runs
    · cases runs
    · split at runs
      · cases runs
      · cases runs
        exact Frame.routed_fresh problem.schema b.start (problem.horizon - 2)
  done outcome done := by
    simp only [Stage.begin] at done
    split at done
    · cases done
    · split at done <;> cases done

theorem work (attains : b.Attains problem) {m : Machine} (runs : b.stage = .running m)
    (settings : SearchSettings) (meter : Meter) :
    ({ b with stage := (Stage.work settings problem m meter).1 } : Branch).Attains problem where
  start := attains.start
  allowed := attains.allowed
  running n runsOn := by
    simp only [Stage.work] at runsOn
    split at runsOn
    · rename_i next
      cases runsOn
      exact Machine.routed_next (attains.running m runs) (Machine.move_of_step next)
    · cases runsOn
  done outcome done := by
    simp only [Stage.work] at done
    split at done
    · cases done
    · rename_i ending last halts
      exact Search.attains_of_conclude (fun t reached =>
        Machine.attains_of_halt (attains.running m runs) halts reached) (Stage.done.inj done)

end Branch.Attains

namespace Pool

variable {p q : Pool}

theorem attains_initial (meter : Meter) : (initial problem meter).Attains problem :=
  .undecided rfl (fun _ => Schema.mem_candidates_iff.mp) (fun _ none => nomatch none)

theorem Attains.submit (attains : p.Attains problem) (undecided : p.answer? = none)
    {choice : Choice} {rest : List Choice} (next : p.unsubmitted = choice :: rest) :
    (p.submit choice rest (problem.schema.advance settings.checked problem.initial choice
      (.whole 1))).Attains problem := by
  cases attains with
  | decided decided _ => cases undecided.symm.trans decided
  | undecided _ unsubmitted branches =>
      rw [next] at unsubmitted
      obtain ⟨allowed, others⟩ := List.forall_mem_cons.mp unsubmitted
      cases advanced : problem.schema.advance settings.checked problem.initial choice (.whole 1)
        with
      | error failure => exact .decided rfl (fun _ fails => nomatch fails)
      | ok s =>
          refine .undecided undecided others (List.forall_mem_append.mpr ⟨branches, ?_⟩)
          intro branch here
          cases List.mem_singleton.mp here
          exact ⟨Schema.eq_after_of_advance advanced, allowed, (fun _ runs => nomatch runs),
            (fun _ done => nomatch done)⟩

theorem Attains.replace (attains : p.Attains problem) {before after : List Branch}
    {branch : Branch} {stage : Stage} {meter : Meter}
    (split : p.branches = before ++ branch :: after)
    (keeps : branch.Attains problem → ({ branch with stage } : Branch).Attains problem) :
    { p with branches := before ++ { branch with stage } :: after, meter }.Attains problem := by
  cases attains with
  | decided decided attains => exact .decided decided attains
  | undecided undecided unsubmitted branches =>
      exact .undecided undecided unsubmitted (forall_mem_replace split branches keeps)

theorem Attains.take (far : 2 ≤ problem.horizon) (attains : p.Attains problem)
    (undecided : p.answer? = none) {branch : Branch} {rest : List Branch}
    {result : Except Fault Outcome} (first : p.branches = branch :: rest)
    (done : branch.stage = .done result) :
    (p.take problem branch.choice rest result).Attains problem := by
  cases attains with
  | decided decided _ => cases undecided.symm.trans decided
  | undecided _ unsubmitted branches =>
      rw [first] at branches
      obtain ⟨here, others⟩ := List.forall_mem_cons.mp branches
      cases result with
      | error fault => exact .decided rfl (fun _ fails => nomatch fails)
      | ok outcome =>
          have given := here.done outcome done
          obtain ⟨verdict, counts, step⟩ := outcome
          cases verdict with
          | noPlan => exact .undecided undecided unsubmitted others
          | aborted reason =>
              refine .decided rfl ?_
              rintro _ ⟨⟩ t ⟨⟩
          | success timeline =>
              refine .decided rfl ?_
              rintro _ ⟨⟩ _ ⟨⟩
              have later := here.start ▸ given timeline rfl
              have long : problem.horizon - 2 + 1 = problem.horizon - 1 := by omega
              exact long ▸ later.precede here.allowed

theorem Attains.turn (far : 2 ≤ problem.horizon) (attains : p.Attains problem)
    (turn : Turn workers settings problem p q) : q.Attains problem := by
  cases turn with
  | submit undecided next => exact attains.submit undecided next
  | begin split _ _ => exact attains.replace split (fun branch => branch.begin settings _)
  | work split runs => exact attains.replace split (fun branch => branch.work runs settings _)
  | take undecided _ first done => exact attains.take far undecided first done
  | finish _ _ _ =>
      refine .decided rfl ?_
      rintro _ ⟨⟩ t ⟨⟩

theorem attains_of_turns {meter : Meter} (far : 2 ≤ problem.horizon)
    (turns : Turns workers settings problem (initial problem meter) p) : p.Attains problem := by
  induction turns with
  | refl => exact attains_initial meter
  | tail _ turn ih => exact ih.turn far turn

end Pool

/-- Every success of a search by branches attains the goal by the last step. -/
theorem attains_of_returnsFrom {first : Meter} {outcome : Outcome}
    (returns : ReturnsFrom workers settings problem first (.ok outcome)) :
    outcome.verdict.Attains problem.schema problem.goal.toList problem.initial
      (problem.horizon - 1) := by
  generalize given : Except.ok outcome = result at returns
  cases returns with
  | direct decided => exact Search.attains_of_run_problem given.symm
  | refused undecided charged =>
      cases given
      rintro t ⟨⟩
  | unfit undecided charged fails => cases given
  | @pooled meter p answer undecided charged passes turns ended answers =>
      cases Pool.attains_of_turns (two_le_horizon undecided) turns with
      | undecided open? => cases answers.symm.trans open?
      | @decided answer decided attains =>
          cases answers.symm.trans decided
          cases answer with
          | error fault => cases given
          | ok verdict =>
              cases given
              exact attains verdict rfl

end Branching

namespace Planner

variable {planner : Planner} {clock : Clock} {problem : Problem} {finding : Finding}

/-- Whatever a planner finds for a problem attains the goal by its horizon, if it is a success. -/
theorem attains_of_returns (returns : planner.Returns clock problem (.ok finding)) :
    finding.problem = problem ∧
      finding.verdict.Attains problem.schema problem.goal.toList problem.initial
        (problem.horizon - 1) := by
  generalize given : Except.ok finding = result at returns
  cases returns with
  | alone single =>
      obtain ⟨outcome, ends, rfl⟩ := Except.exists_of_map_eq_ok given.symm
      exact ⟨rfl, Search.attains_of_run_problem ends⟩
  | together several employs returns =>
      obtain ⟨outcome, rfl, rfl⟩ := Except.exists_of_map_eq_ok given.symm
      exact ⟨rfl, Branching.attains_of_returnsFrom returns⟩

theorem attains_of_returnsFor {d : Description}
    (returns : planner.ReturnsFor clock d (.ok finding)) :
    d.problem = .ok finding.problem ∧
      finding.verdict.Attains finding.problem.schema finding.problem.goal.toList
        finding.problem.initial (finding.problem.horizon - 1) := by
  generalize given : Except.ok finding = result at returns
  cases returns with
  | refused senseless => cases given
  | solved states returns =>
      obtain ⟨rfl, attains⟩ := attains_of_returns (given ▸ returns)
      exact ⟨states, attains⟩

end Planner

end StackingPlanner
