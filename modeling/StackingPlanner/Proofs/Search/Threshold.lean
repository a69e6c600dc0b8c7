import StackingPlanner.Proofs.Search.Budgeted

/-!
# How many visits a search needs

A bound on the visits is an exact threshold.  A search that is allowed as many
visits as it makes without bounds ends as it does without bounds, and one that
is allowed fewer is aborted when it has made all of them.  A visit is charged
before its state is looked at, so this holds of the visit that meets the goal
too, and what was charged to the meter before only counts against the bound.
-/

namespace StackingPlanner

namespace Meter

/-- A meter that was not cancelled and whose budget bounds nothing but the visits to come. -/
structure Affords (m : Meter) (visits : Nat) : Prop where
  budget : m.budget = { maxNodes := some (.whole (m.nodes + visits : Nat)) }
  granting : m.cancelled = false

variable {m : Meter} {visits : Nat}

theorem Affords.start (affords : m.Affords visits) : m.start.Affords visits := by
  unfold Meter.start
  split <;> exact ⟨affords.budget, affords.granting⟩

theorem Affords.charge_zero (affords : m.Affords 0) : m.charge = (some .nodeBudget, m) := by
  have spent : exhausts m.budget m.nodes = true := by
    rw [affords.budget, exhausts_whole rfl, decide_eq_true_iff]
    omega
  rw [charge, if_neg (ne_true_of_eq_false affords.granting), if_pos spent]

theorem Affords.charge_succ (affords : m.Affords (visits + 1)) :
    m.charge = (none, { m with nodes := m.nodes + 1 }) := by
  have left : exhausts m.budget m.nodes = false := by
    rw [affords.budget, exhausts_whole rfl, decide_eq_false_iff_not]
    omega
  rw [charge, if_neg (ne_true_of_eq_false affords.granting), if_neg (ne_true_of_eq_false left),
    affords.budget]

theorem Affords.count (affords : m.Affords (visits + 1)) :
    { m with nodes := m.nodes + 1 }.Affords visits := by
  have same : m.nodes + (visits + 1) = m.nodes + 1 + visits := by omega
  exact ⟨same ▸ affords.budget, affords.granting⟩

theorem cancelled_start (cancelled : m.cancelled = true) : m.start.cancelled = true := by
  unfold Meter.start
  split <;> exact cancelled

theorem affords_of_le {limit : Nat} (budget : m.budget = { maxNodes := some (.whole limit) })
    (granting : m.cancelled = false) (within : m.nodes ≤ limit) :
    m.Affords (limit - m.nodes) := by
  have same : m.nodes + (limit - m.nodes) = limit := Nat.add_sub_cancel' within
  exact ⟨same.symm ▸ budget, granting⟩

end Meter

namespace Machine

variable {task : SearchTask} {m n : Machine} {visits : Nat}

/-- When a visit is refused, nothing but the meter has changed. -/
theorem step_of_refused (next : m.visitsNext = true) {reason : Refusal} {used : Meter}
    (charged : m.meter.charge = (some reason, used)) :
    step task m = .halted (.refused reason) { m with meter := used } := by
  obtain ⟨frames, table, meter, statistics⟩ := m
  cases frames with
  | nil => cases next
  | cons f below =>
      have fresh : f.pending = none := Option.isNone_iff_eq_none.mp next
      simp only [step, fresh, visit, charged]

/-- A step is granted the visit that it makes, if it makes one, as long as its meter affords one. -/
theorem step_affords (task : SearchTask) (affords : m.meter.Affords visits)
    (enough : m.visitsNext.toNat ≤ visits) :
    (m.visitsNext = true → m.meter.charge.1 = none) ∧
      (step task m).machine.meter.Affords (visits - m.visitsNext.toNat) := by
  cases next : m.visitsNext with
  | false =>
      refine ⟨fun visit => absurd visit Bool.false_ne_true, ?_⟩
      rw [(step_spares task next).meter]
      exact affords
  | true =>
      obtain ⟨rest, rfl⟩ : ∃ rest, visits = rest + 1 := by
        rw [next] at enough
        exact Nat.exists_eq_succ_of_ne_zero (Nat.pos_iff_ne_zero.mp enough)
      have granted := affords.charge_succ
      rw [(step_visits task next).meter, granted]
      exact ⟨fun _ => rfl, affords.count⟩

/--
Beside a machine without bounds, a machine that is like it and may make some
visits more either makes the same step or is refused the visit that it lacks.
-/
theorem Alike.step_or_refused (task : SearchTask) (alike : m.Alike n)
    (unlimited : m.meter.Unlimited) (affords : n.meter.Affords visits) :
    (∃ rest : Nat, (Machine.step task m).Alike (Machine.step task n) ∧
        (Machine.step task n).machine.meter.Affords rest ∧
        (Machine.step task m).machine.statistics.nodes + rest = m.statistics.nodes + visits) ∨
      visits = 0 ∧ Machine.step task n = .halted (.refused .nodeBudget) n ∧
        (Machine.step task m).machine.statistics.nodes = m.statistics.nodes + 1 := by
  have same : n.visitsNext = m.visitsNext := by
    rw [visitsNext, visitsNext, alike.frames]
  have granted : m.visitsNext = true → m.meter.charge.1 = none := fun _ => unlimited.granted
  have counted := step_counts task granted
  by_cases enough : n.visitsNext.toNat ≤ visits
  · obtain ⟨granted', affords⟩ := step_affords task affords enough
    rw [same] at granted' affords enough
    refine .inl ⟨_, alike.step task granted granted', affords, ?_⟩
    omega
  · have next : n.visitsNext = true := by
      cases next : n.visitsNext with
      | false => simp [next] at enough
      | true => rfl
    have none : visits = 0 := by
      rw [next] at enough
      exact Nat.lt_one_iff.mp (Nat.lt_of_not_le enough)
    subst none
    rw [same.symm.trans next] at counted
    exact .inr ⟨rfl, step_of_refused next affords.charge_zero, counted⟩

/--
A run that may make some visits more ends as the run without bounds does, if
that makes no more of them, and otherwise is refused when it has made them all.
-/
theorem Alike.run_affords (task : SearchTask) (alike : m.Alike n)
    (unlimited : m.meter.Unlimited) (affords : n.meter.Affords visits) :
    ((Machine.run task m).2.statistics.nodes ≤ m.statistics.nodes + visits →
        (Machine.run task n).1 = (Machine.run task m).1 ∧
          (Machine.run task n).2.statistics = (Machine.run task m).2.statistics) ∧
      (m.statistics.nodes + visits < (Machine.run task m).2.statistics.nodes →
        (Machine.run task n).1 = .refused .nodeBudget ∧
          (Machine.run task n).2.statistics.nodes = m.statistics.nodes + visits) := by
  induction m using run.induct task generalizing n visits with
  | case1 m next going ih =>
      have unlimitedNext := unlimited_step task unlimited
      have more := nodes_le_run task next
      have steps := alike.step_or_refused task unlimited affords
      rw [going] at steps unlimitedNext
      rw [run_of_going going]
      rcases steps with ⟨rest, steps, affords, counted⟩ | ⟨rfl, refused, counted⟩
      · have counted : next.statistics.nodes + rest = m.statistics.nodes + visits := counted
        obtain ⟨next', same, alike⟩ := steps.of_going
        rw [same] at affords
        rw [run_of_going same, ← counted]
        exact ih alike unlimitedNext affords
      · have counted : next.statistics.nodes = m.statistics.nodes + 1 := counted
        rw [run_of_halted refused, ← alike.statistics]
        exact ⟨fun enough => by omega, fun _ => ⟨rfl, by omega⟩⟩
  | case2 m ending last halted =>
      have steps := alike.step_or_refused task unlimited affords
      rw [halted] at steps
      rw [run_of_halted halted]
      rcases steps with ⟨rest, steps, _, counted⟩ | ⟨rfl, refused, counted⟩
      · have counted : last.statistics.nodes + rest = m.statistics.nodes + visits := counted
        obtain ⟨last', same, alike⟩ := steps.of_halted
        rw [run_of_halted same]
        refine ⟨fun _ => ⟨rfl, alike.statistics.symm⟩, fun short => ?_⟩
        have short : m.statistics.nodes + visits < last.statistics.nodes := short
        omega
      · have counted : last.statistics.nodes = m.statistics.nodes + 1 := counted
        rw [run_of_halted refused, ← alike.statistics]
        dsimp only
        exact ⟨fun enough => by omega, fun _ => ⟨rfl, by omega⟩⟩

theorem run_of_cancelled (task : SearchTask) {meter : Meter} (cancelled : meter.cancelled = true)
    (count : Nat) (start : State) (table : Option StateTable) :
    run task (initial count start table meter) =
      (.refused .cancelled, initial count start table meter) := by
  have charged : meter.charge = (some .cancelled, meter) := by
    rw [Meter.charge, if_pos cancelled]
  have next : (initial count start table meter).visitsNext = true := rfl
  exact run_of_halted (step_of_refused next charged)

end Machine

namespace Search

theorem statistics_of_conclude {settings : SearchSettings} {startStep : Int} {ending : Ending}
    {statistics : Statistics} {outcome : Outcome}
    (concluded : conclude settings startStep ending statistics = .ok outcome) :
    outcome.statistics = { statistics with elapsedMs := .real settings.stopwatch.span } := by
  cases ending with
  | reached _ | exhausted | refused _ =>
      cases concluded
      rfl
  | broken _ | narrow => cases concluded

theorem nodes_of_conclude {settings : SearchSettings} {startStep : Int} {ending : Ending}
    {statistics : Statistics} {outcome : Outcome}
    (concluded : conclude settings startStep ending statistics = .ok outcome) :
    outcome.statistics.nodes = statistics.nodes := by
  rw [statistics_of_conclude concluded]

variable {schema : Schema} {settings : SearchSettings} {initial : State}
  {goal : OrderedSet Literal} {horizon startStep : Int}

theorem nodes_le_one_of_run
    (direct : (horizon - startStep).toNat = 0 ∨ initial.satisfies goal.toList = true)
    {meter : Meter} {outcome : Outcome}
    (ended : (run schema settings initial goal horizon startStep meter).1 = .ok outcome) :
    outcome.statistics.nodes ≤ 1 := by
  obtain ⟨table, _, _, concluded⟩ := concluded_of_run ended
  rw [nodes_of_conclude concluded]
  exact Machine.nodes_run_le_one _ direct _ _

/-- A search under a bound on its visits, beside the one without bounds. -/
theorem run_affords (inOrder : ¬ (startStep < 1 ∨ horizon < startStep))
    {table : Option StateTable} (made : settings.table = .ok table)
    (passes : settings.checkStart schema initial (.whole startStep) = .ok ())
    {unlimited meter : Meter} (free : unlimited.Unlimited) {visits : Nat}
    (affords : meter.Affords visits) {whole : Outcome}
    (finished : (run schema settings initial goal horizon startStep unlimited).1 = .ok whole) :
    (whole.statistics.nodes ≤ visits →
        (run schema settings initial goal horizon startStep meter).1 = .ok whole) ∧
      (visits < whole.statistics.nodes →
        ∃ cut, (run schema settings initial goal horizon startStep meter).1 = .ok cut ∧
          cut.verdict = .aborted .nodeBudget ∧ cut.statistics.nodes = visits) := by
  have alike : (Machine.initial (horizon - startStep).toNat initial table unlimited.start).Alike
      (.initial (horizon - startStep).toNat initial table meter.start) := ⟨rfl, rfl, rfl⟩
  obtain ⟨enough, short⟩ := alike.run_affords ⟨schema, settings.checked, goal, horizon.toNat⟩
    free.start affords.start
  have none : (Machine.initial (horizon - startStep).toNat initial table
      unlimited.start).statistics.nodes + visits = visits := Int.zero_add _
  rw [none] at enough short
  rw [run_eq inOrder made passes] at finished
  have counted := nodes_of_conclude finished
  rw [run_eq inOrder made passes, counted]
  constructor
  · intro within
    obtain ⟨ending, statistics⟩ := enough within
    rw [ending, statistics]
    exact finished
  · intro beyond
    obtain ⟨ending, nodes⟩ := short beyond
    rw [ending]
    exact ⟨_, rfl, rfl, nodes⟩

/--
Under a bound on the visits that leaves as many as an unhindered search makes,
less those that were charged before, a search has the same outcome; under a
lower one it is aborted after exactly the visits that are left.
-/
theorem Unhindered.exists_threshold {unlimited : Meter}
    (free : Unhindered schema settings initial startStep unlimited)
    (goal : OrderedSet Literal) (first : 1 ≤ startStep) (order : startStep ≤ horizon) :
    ∃ whole, (run schema settings initial goal horizon startStep unlimited).1 = .ok whole ∧
      ∀ (limit : Nat) (meter : Meter), meter.budget = { maxNodes := some (.whole limit) } →
        meter.cancelled = false → meter.nodes ≤ limit →
        (whole.statistics.nodes ≤ limit - meter.nodes →
          (run schema settings initial goal horizon startStep meter).1 = .ok whole) ∧
        (limit - meter.nodes < whole.statistics.nodes →
          ∃ cut, (run schema settings initial goal horizon startStep meter).1 = .ok cut ∧
            cut.verdict = .aborted .nodeBudget ∧
            cut.statistics.nodes = limit - meter.nodes) := by
  obtain ⟨whole, finished, _⟩ :=
    run_answers free.accepted free.admits free.room goal first order unlimited
  obtain ⟨table, made, _⟩ := free.room.roomy
  refine ⟨whole, finished, fun limit meter budget granting within => ?_⟩
  have left : ((limit - meter.nodes : Nat) : Int) = limit - meter.nodes := by omega
  rw [← left]
  exact run_affords (by omega) made free.passes free.unlimited
    (Meter.affords_of_le budget granting within) finished

/--
An unhindered search makes some number of visits.  Under a bound on the visits
that leaves as many, less those that were charged before, it has the same
outcome; under a lower one it is aborted after exactly the visits that are left.
If its meter was cancelled, it is aborted before the first one.  Whatever its
meter is, it has an outcome.
-/
theorem run_threshold {unlimited : Meter}
    (free : Unhindered schema settings initial startStep unlimited)
    (goal : OrderedSet Literal) (first : 1 ≤ startStep) (order : startStep ≤ horizon) :
    ∃ whole, (run schema settings initial goal horizon startStep unlimited).1 = .ok whole ∧
      (∀ (limit : Nat) (meter : Meter), meter.budget = { maxNodes := some (.whole limit) } →
        meter.cancelled = false → meter.nodes ≤ limit →
        (whole.statistics.nodes ≤ limit - meter.nodes →
          (run schema settings initial goal horizon startStep meter).1 = .ok whole) ∧
        (limit - meter.nodes < whole.statistics.nodes →
          ∃ cut, (run schema settings initial goal horizon startStep meter).1 = .ok cut ∧
            cut.verdict = .aborted .nodeBudget ∧
            cut.statistics.nodes = limit - meter.nodes)) ∧
      (∀ meter : Meter, meter.cancelled = true →
        ∃ cut, (run schema settings initial goal horizon startStep meter).1 = .ok cut ∧
          cut.verdict = .aborted .cancelled ∧ cut.statistics.nodes = 0) ∧
      ∀ meter : Meter, ∃ outcome,
        (run schema settings initial goal horizon startStep meter).1 = .ok outcome := by
  obtain ⟨whole, finished, threshold⟩ := free.exists_threshold goal first order
  obtain ⟨table, made, _⟩ := free.room.roomy
  refine ⟨whole, finished, threshold, ?_, ?_⟩
  · intro meter cancelled
    rw [run_eq (by omega) made free.passes,
      Machine.run_of_cancelled _ (Meter.cancelled_start cancelled)]
    exact ⟨_, rfl, rfl, rfl⟩
  · intro meter
    obtain ⟨outcome, finished, _⟩ :=
      run_answers free.accepted free.admits free.room goal first order meter
    exact ⟨outcome, finished⟩

/--
Without a table the search for a way of the lone disc makes ten visits: a bound
of ten is enough, but if six were charged before it is cut after four more.
-/
theorem run_threshold_loneDisc :
    let ten : Meter := Meter.fresh { maxNodes := some (.whole 10) } .still
    ∃ whole,
      (run loneDisc { usesTable := false } loneDiscStart loneDiscGoal 5 1
        (Meter.fresh {} .still)).1 = .ok whole ∧
      whole.statistics.nodes = 10 ∧
      (run loneDisc { usesTable := false } loneDiscStart loneDiscGoal 5 1 ten).1 = .ok whole ∧
      ∃ cut,
        (run loneDisc { usesTable := false } loneDiscStart loneDiscGoal 5 1
          { ten with nodes := 6 }).1 = .ok cut ∧
        cut.verdict = .aborted .nodeBudget ∧ cut.statistics.nodes = 4 := by
  intro ten
  obtain ⟨whole, finished, bounded, _⟩ := run_threshold unhindered_loneDisc.untabled loneDiscGoal
    (by decide : (1 : Int) ≤ 1) (by decide : (1 : Int) ≤ 5)
  have visits : ((run loneDisc { usesTable := false } loneDiscStart loneDiscGoal 5 1
      (Meter.fresh {} .still)).1.toOption.map (·.statistics.nodes)) = some 10 := by
    decide +kernel
  rw [finished] at visits
  have visits : whole.statistics.nodes = 10 := Option.some.inj visits
  refine ⟨whole, finished, visits, ?_, ?_⟩
  · exact (bounded 10 ten rfl rfl (by decide)).1 (by rw [visits]; decide)
  · exact (bounded 10 { ten with nodes := 6 } rfl rfl (by decide)).2 (by rw [visits]; decide)

end Search

end StackingPlanner
