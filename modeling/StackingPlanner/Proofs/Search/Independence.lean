import StackingPlanner.Proofs.Search.Correct

/-!
# Searches that share a meter

As long as a meter grants every visit, a search does not depend on what was
charged to it before.  So searches that share an unlimited meter do not
influence each other, in whatever order they charge it.
-/

namespace StackingPlanner

/-- Two machines that differ at most in their meters. -/
structure Machine.Alike (m n : Machine) : Prop where
  frames : m.frames = n.frames
  table : m.table = n.table
  statistics : m.statistics = n.statistics

inductive Progress.Alike : Progress → Progress → Prop where
  | going {m n : Machine} (alike : m.Alike n) : Alike (.going m) (.going n)
  | halted {m n : Machine} (ending : Ending) (alike : m.Alike n) :
      Alike (.halted ending m) (.halted ending n)

theorem Progress.Alike.of_going {m : Machine} {other : Progress}
    (steps : (Progress.going m).Alike other) : ∃ n, other = .going n ∧ m.Alike n := by
  cases steps with
  | going alike => exact ⟨_, rfl, alike⟩

theorem Progress.Alike.of_halted {m : Machine} {ending : Ending} {other : Progress}
    (steps : (Progress.halted ending m).Alike other) :
    ∃ n, other = .halted ending n ∧ m.Alike n := by
  cases steps with
  | halted _ alike => exact ⟨_, rfl, alike⟩

namespace Machine

variable {task : SearchTask} {f : Frame} {below : List Frame} {table : Option StateTable}
  {a b : Meter} {statistics : Statistics}

theorem giveUp_alike :
    (giveUp f below table a statistics).Alike (giveUp f below table b statistics) := by
  unfold giveUp
  cases remember? table f with
  | some noted => exact .going ⟨rfl, rfl, rfl⟩
  | none => exact .halted _ ⟨rfl, rfl, rfl⟩

theorem tryChoice_alike {choice : Choice} {untried : List Choice} :
    (tryChoice task f choice untried below table a statistics).Alike
      (tryChoice task f choice untried below table b statistics) := by
  unfold tryChoice
  cases task.schema.advance task.checked f.state choice (.whole (f.step task)) with
  | ok successor => exact .going ⟨rfl, rfl, rfl⟩
  | error failure => exact .halted _ ⟨rfl, rfl, rfl⟩

theorem expand_alike :
    (expand task f below table a statistics).Alike (expand task f below table b statistics) := by
  unfold expand
  split
  · exact giveUp_alike
  · split
    · exact .going ⟨rfl, rfl, rfl⟩
    · split
      · exact .going ⟨rfl, rfl, rfl⟩
      · exact tryChoice_alike

theorem visit_alike (granted : a.charge.1 = none) (granted' : b.charge.1 = none) :
    (visit task f below table a statistics).Alike (visit task f below table b statistics) := by
  unfold visit
  cases charged : a.charge with
  | mk refusal used =>
      cases charged' : b.charge with
      | mk refusal' used' =>
          rw [charged] at granted
          rw [charged'] at granted'
          cases granted
          cases granted'
          dsimp only
          split
          · exact .halted _ ⟨rfl, rfl, rfl⟩
          · exact expand_alike

def visitsNext (m : Machine) : Bool :=
  match m.frames with
  | [] => false
  | f :: _ => f.pending.isNone

/-- If a visit is granted to both of two machines that are alike, their steps are alike. -/
theorem Alike.step (task : SearchTask) {m n : Machine} (alike : m.Alike n)
    (granted : m.visitsNext = true → m.meter.charge.1 = none)
    (granted' : m.visitsNext = true → n.meter.charge.1 = none) :
    (step task m).Alike (step task n) := by
  obtain ⟨frames, table, a, statistics⟩ := m
  obtain ⟨frames', table', b, statistics'⟩ := n
  obtain ⟨rfl, rfl, rfl⟩ := alike
  cases frames with
  | nil => exact .halted _ ⟨rfl, rfl, rfl⟩
  | cons f below =>
      simp only [Machine.step]
      cases pending : f.pending with
      | none =>
          have visits : f.pending.isNone = true := by rw [pending]; rfl
          exact visit_alike (granted visits) (granted' visits)
      | some untried =>
          cases untried with
          | nil => exact giveUp_alike
          | cons choice untried => exact tryChoice_alike

theorem run_of_going {m n : Machine} (next : Machine.step task m = .going n) :
    run task m = run task n := by
  rw [run]
  split
  · rename_i other same
    cases next.symm.trans same
    rfl
  · rename_i halted
    cases next.symm.trans halted

theorem run_of_halted {m n : Machine} {ending : Ending}
    (next : Machine.step task m = .halted ending n) : run task m = (ending, n) := by
  rw [run]
  split
  · rename_i going
    cases next.symm.trans going
  · rename_i same
    cases next.symm.trans same
    rfl

/-- With unlimited meters machines that are alike end alike. -/
theorem Alike.run (task : SearchTask) {m n : Machine} (alike : m.Alike n)
    (unlimited : m.meter.Unlimited) (unlimited' : n.meter.Unlimited) :
    (run task m).1 = (run task n).1 ∧ (run task m).2.Alike (run task n).2 := by
  induction m using run.induct task generalizing n with
  | case1 m next going ih =>
      have steps := alike.step task (fun _ => unlimited.granted) (fun _ => unlimited'.granted)
      have after := unlimited_step task unlimited
      have after' := unlimited_step task unlimited'
      rw [going] at steps after
      obtain ⟨next', same, alike⟩ := steps.of_going
      rw [same] at after'
      rw [run_of_going going, run_of_going same]
      exact ih alike after after'
  | case2 m ending last halted =>
      have steps := alike.step task (fun _ => unlimited.granted) (fun _ => unlimited'.granted)
      rw [halted] at steps
      obtain ⟨last', same, alike⟩ := steps.of_halted
      rw [run_of_halted halted, run_of_halted same]
      exact ⟨rfl, alike⟩

theorem like_step (task : SearchTask) {m : Machine}
    (unbounded : m.meter.budget.unlimited = true) :
    (Machine.step task m).machine.meter.Like m.meter := by
  rcases (move_step task m).meter_eq with same | charged
  · rw [same]
    exact .refl _
  · rw [charged]
    exact Meter.like_charge unbounded

theorem like_run (task : SearchTask) (m : Machine)
    (unbounded : m.meter.budget.unlimited = true) :
    (Machine.run task m).2.meter.Like m.meter := by
  have preserved : ∀ k n : Machine, k.meter.Like m.meter → Machine.step task k = .going n →
      n.meter.Like m.meter := by
    intro k n like next
    have after := like_step task (m := k) (like.budget ▸ unbounded)
    rw [next] at after
    exact after.trans like
  obtain ⟨last, like, halts⟩ := run_keeps preserved (Meter.Like.refl m.meter)
  have after := like_step task (m := last) (like.budget ▸ unbounded)
  rw [halts] at after
  exact after.trans like

end Machine

namespace Search

variable {schema : Schema} {settings : SearchSettings} {initial : State}
  {goal : OrderedSet Literal} {horizon startStep : Int} {a b : Meter}

/-- With unlimited meters a search has one outcome, whatever was charged before. -/
theorem run_outcome_eq (unlimited : a.Unlimited) (unlimited' : b.Unlimited) :
    (run schema settings initial goal horizon startStep a).1 =
      (run schema settings initial goal horizon startStep b).1 := by
  unfold run
  split
  · rfl
  · unfold runFrom
    cases settings.table with
    | error misuse => rfl
    | ok table =>
        cases settings.checkStart schema initial (.whole startStep) with
        | error failure => rfl
        | ok passes =>
            have alike : (Machine.initial (horizon - startStep).toNat initial table a.start).Alike
                (.initial (horizon - startStep).toNat initial table b.start) := ⟨rfl, rfl, rfl⟩
            obtain ⟨ending, last⟩ := alike.run ⟨schema, settings.checked, goal, horizon.toNat⟩
              unlimited.start unlimited'.start
            dsimp only
            rw [ending, last.statistics]

theorem unlimited_run (unlimited : a.Unlimited) :
    (run schema settings initial goal horizon startStep a).2.Unlimited := by
  unfold run
  split
  · exact unlimited
  · unfold runFrom
    cases settings.table with
    | error misuse => exact unlimited.start
    | ok table =>
        cases settings.checkStart schema initial (.whole startStep) with
        | error failure => exact unlimited.start
        | ok passes => exact (Machine.run_unlimited _ _ unlimited.start).1

theorem like_run (unbounded : a.budget.unlimited = true) (started : a.startedAt.isSome = true) :
    (run schema settings initial goal horizon startStep a).2.Like a := by
  unfold run
  split
  · exact .refl a
  · unfold runFrom
    rw [Meter.start_of_started started]
    cases settings.table with
    | error misuse => exact .refl a
    | ok table =>
        cases settings.checkStart schema initial (.whole startStep) with
        | error failure => exact .refl a
        | ok passes => exact Machine.like_run _ _ unbounded

end Search

end StackingPlanner
