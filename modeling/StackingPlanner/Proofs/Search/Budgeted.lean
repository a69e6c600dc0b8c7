import StackingPlanner.Proofs.Search.Checks

/-!
# Searches under every budget

A budget can cut a search short, but it cannot change what the search says: a
success is what the plain search finds, and that there is no plan is said only
if the plain search fails.  From a sane state and with room in its table a
search always has an outcome, and its count of visits is not below zero.
-/

namespace StackingPlanner

/--
What a verdict says about what the plain search finds from a state; an aborted
search says nothing.
-/
def Verdict.Answers (start : State) (found : Option Steps) : Verdict → Prop
  | .success timeline => ∃ steps, found = some steps ∧ timeline = Timeline.ofSteps start steps
  | .noPlan => found = none
  | .aborted _ => True

/-- An outcome that says what the plain search finds, after a number of visits. -/
structure Outcome.Answers (start : State) (found : Option Steps) (o : Outcome) : Prop where
  verdict : o.verdict.Answers start found
  counted : 0 ≤ o.statistics.nodes

namespace Machine

/-! ## The count of visits -/

/-- A step that is no visit neither charges the meter nor counts. -/
structure Spares (meter : Meter) (nodes : Int) (progress : Progress) : Prop where
  meter : progress.machine.meter = meter
  nodes : progress.machine.statistics.nodes = nodes

section Count

variable {task : SearchTask} {f : Frame} {below : List Frame} {table : Option StateTable}
  {meter : Meter} {statistics : Statistics}

theorem giveUp_spares :
    Spares meter statistics.nodes (giveUp f below table meter statistics) := by
  unfold giveUp
  split <;> exact ⟨rfl, rfl⟩

theorem tryChoice_spares {choice : Choice} {untried : List Choice} :
    Spares meter statistics.nodes
      (tryChoice task f choice untried below table meter statistics) := by
  unfold tryChoice
  split <;> exact ⟨rfl, rfl⟩

theorem expand_spares :
    Spares meter statistics.nodes (expand task f below table meter statistics) := by
  unfold expand
  split
  · exact giveUp_spares
  · split
    · exact ⟨rfl, rfl⟩
    · split
      · exact ⟨rfl, rfl⟩
      · exact tryChoice_spares

theorem visit_spares :
    Spares meter.charge.2 (statistics.nodes + (if meter.charge.1.isNone then 1 else 0))
      (visit task f below table meter statistics) := by
  unfold visit
  cases meter.charge with
  | mk refusal used =>
      cases refusal with
      | some reason => exact ⟨rfl, (Int.add_zero _).symm⟩
      | none =>
          dsimp only
          by_cases holds : f.state.satisfies task.goal.toList = true
          · rw [if_pos holds]
            exact ⟨rfl, rfl⟩
          · rw [if_neg holds]
            exact ⟨expand_spares.meter, expand_spares.nodes⟩

theorem step_spares (task : SearchTask) {m : Machine} (spares : m.visitsNext = false) :
    Spares m.meter m.statistics.nodes (step task m) := by
  obtain ⟨frames, table, meter, statistics⟩ := m
  cases frames with
  | nil => exact ⟨rfl, rfl⟩
  | cons f below =>
      cases pending : f.pending with
      | none => simp [visitsNext, pending] at spares
      | some untried =>
          cases untried with
          | nil =>
              simp only [step, pending]
              exact ⟨giveUp_spares.meter, giveUp_spares.nodes⟩
          | cons choice untried =>
              simp only [step, pending]
              exact tryChoice_spares

theorem step_visits (task : SearchTask) {m : Machine} (visits : m.visitsNext = true) :
    Spares m.meter.charge.2 (m.statistics.nodes + (if m.meter.charge.1.isNone then 1 else 0))
      (step task m) := by
  obtain ⟨frames, table, meter, statistics⟩ := m
  cases frames with
  | nil => cases visits
  | cons f below =>
      have pending : f.pending = none := Option.isNone_iff_eq_none.mp visits
      simp only [step, pending]
      exact visit_spares

theorem step_counts (task : SearchTask) {m : Machine}
    (granted : m.visitsNext = true → m.meter.charge.1 = none) :
    (step task m).machine.statistics.nodes = m.statistics.nodes + m.visitsNext.toNat := by
  cases next : m.visitsNext with
  | false => exact (step_spares task next).nodes.trans (Int.add_zero _).symm
  | true =>
      rw [(step_visits task next).nodes, granted next]
      rfl

theorem nodes_le_step (task : SearchTask) (m : Machine) :
    m.statistics.nodes ≤ (step task m).machine.statistics.nodes := by
  cases visits : m.visitsNext with
  | false => exact Int.le_of_eq (step_spares task visits).nodes.symm
  | true =>
      rw [(step_visits task visits).nodes]
      split <;> omega

theorem nodes_le_run (task : SearchTask) (m : Machine) :
    m.statistics.nodes ≤ (run task m).2.statistics.nodes := by
  have preserved : ∀ k n : Machine, m.statistics.nodes ≤ k.statistics.nodes →
      step task k = .going n → m.statistics.nodes ≤ n.statistics.nodes := by
    intro k n counted next
    have more := nodes_le_step task k
    rw [next] at more
    exact counted.trans more
  obtain ⟨last, counted, halts⟩ := run_keeps preserved (Int.le_refl _)
  have more := nodes_le_step task last
  rw [halts] at more
  exact counted.trans more

/-- If the next step is a visit and no visit is refused, a run counts at least that visit. -/
theorem nodes_next_le_run (task : SearchTask) {m : Machine} (unlimited : m.meter.Unlimited) :
    m.statistics.nodes + m.visitsNext.toNat ≤ (run task m).2.statistics.nodes := by
  rw [← step_counts task (fun _ => unlimited.granted)]
  cases next : step task m with
  | going n =>
      rw [run_of_going next]
      exact nodes_le_run task n
  | halted ending last =>
      rw [run_of_halted next]
      exact Int.le_refl _

theorem nodes_run_le_one (task : SearchTask) {count : Nat} {s : State}
    (direct : count = 0 ∨ s.satisfies task.goal.toList = true) (table : Option StateTable)
    (meter : Meter) : (run task (initial count s table meter)).2.statistics.nodes ≤ 1 := by
  have visits : (initial count s table meter).visitsNext = true := rfl
  have counted := (step_visits task visits).nodes
  have once : (step task (initial count s table meter)).machine.statistics.nodes ≤ 1 := by
    have zero : (initial count s table meter).statistics.nodes = 0 := rfl
    rw [counted, zero]
    split <;> decide
  cases next : step task (initial count s table meter) with
  | halted ending last =>
      rw [next] at once
      rw [run_of_halted next]
      exact once
  | going n =>
      rw [next] at once
      have empty : n.frames = [] := by
        cases move_of_step next with
        | fail _ _ _ _ _ => rfl
        | prune _ _ unmet remains _ | descend _ _ unmet remains _ _ _ =>
            rcases direct with none | holds
            · exact absurd none remains
            · cases holds.symm.trans unmet
        | retry pending _ | close pending _ => cases pending
      obtain ⟨frames, table, meter, statistics⟩ := n
      cases empty
      rw [run_of_going next, run_of_halted rfl]
      exact once

end Count

end Machine

namespace Search

/-- What a machine comes to is an outcome that says what the plain search finds. -/
theorem conclude_answers {settings : SearchSettings} {startStep : Int} {task : SearchTask}
    {start : State} {count : Nat} {ending : Ending} (answers : ending.Answers task start count)
    {statistics : Statistics} (counted : 0 ≤ statistics.nodes) :
    ∃ outcome, conclude settings startStep ending statistics = .ok outcome ∧
      outcome.Answers start (task.plain? count start) := by
  cases ending with
  | reached timeline => exact ⟨_, rfl, answers, counted⟩
  | exhausted => exact ⟨_, rfl, answers, counted⟩
  | refused reason => exact ⟨_, rfl, trivial, counted⟩
  | broken failure => cases answers
  | narrow => cases answers

variable {schema : Schema} {settings : SearchSettings} {start : State} {horizon startStep : Int}

/--
Whatever is left of its budget, a search has an outcome that says what the
plain search finds.
-/
theorem run_answers (accepted : schema.Accepted) (admits : settings.Admits schema start)
    (room : settings.HasRoom) (goal : OrderedSet Literal) (first : 1 ≤ startStep)
    (order : startStep ≤ horizon) (meter : Meter) :
    ∃ outcome, (run schema settings start goal horizon startStep meter).1 = .ok outcome ∧
      outcome.Answers start
        (schema.leftmost? goal.toList (horizon - startStep).toNat start) := by
  obtain ⟨table, made, new⟩ := room.roomy
  have inOrder : ¬ (startStep < 1 ∨ horizon < startStep) := by omega
  rw [run_eq inOrder made (admits.checkStart accepted _)]
  exact conclude_answers
    (Machine.run_initial_answers ⟨schema, settings.checked, goal, horizon.toNat⟩
      (admits.smooth accepted) (SearchTask.trusts_of_empty new) _ _)
    (Machine.nodes_le_run _ (.initial _ _ _ _))

end Search

end StackingPlanner
