import StackingPlanner.Proofs.Planner.Discipline

/-!
# Planners without bounds

A planner whose budget has no bounds returns one verdict, that of a search
without branches, whatever turns its threads take and whatever its clock shows.
The verdict is what the plain search finds, and a problem has no other outcome
than that unless the table cannot be made or lacks room.  A table lacks room
only for states in which the goal does not hold, so where it holds at once any
table will do.
-/

namespace StackingPlanner

namespace Branching

variable {workers : Nat} {settings : SearchSettings} {problem : Problem}

/-- With a meter that grants every visit a search by branches has the verdict of one without. -/
theorem verdict_of_returnsFrom
    (fit : Search.Fit problem.schema settings problem.initial 1
      (Meter.fresh settings.budget .still)) {first : Meter} (unlimited : first.Unlimited)
    {result : Except Fault Outcome}
    (returns : ReturnsFrom workers settings problem first result) :
    result.map (·.verdict) = (Search.solve settings problem).map (·.verdict) := by
  have unbounded := fit.unlimited.unbounded
  cases returns with
  | direct decided => rw [Search.solve, Search.run_outcome_eq unlimited fit.unlimited]
  | refused undecided charged =>
      rw [unlimited.charge] at charged
      cases charged
  | unfit undecided charged fails => cases fails.symm.trans fit.passes
  | @pooled meter p answer undecided charged passes turns ended answers =>
      have granting := unlimited.charged
      rw [charged] at granting
      rw [← solve_verdict fit, solve_eq_inOrder unbounded undecided passes]
      cases Pool.onTrack_of_turns unbounded (two_le_horizon undecided) granting turns with
      | undecided open? _ _ _ => cases answers.symm.trans open?
      | @decided found decided same =>
          cases answers.symm.trans decided
          rw [← same]
          cases answer <;> rfl

end Branching

/-- A run from a state in which the goal holds stays there. -/
theorem Machine.run_of_goal (task : SearchTask) {s : State}
    (holds : s.satisfies task.goal.toList = true) (count : Nat) (table : Option StateTable)
    {meter : Meter} (unlimited : meter.Unlimited) :
    (run task (initial count s table meter)).1 =
      .reached (Timeline.ofSteps s (List.replicate count (none, s))) := by
  have halts : ∃ n, step task (initial count s table meter) =
      .halted (.reached (Timeline.ofSteps s (List.replicate count (none, s)))) n := by
    simp [step, initial, Frame.fresh, visit, unlimited.charge, holds, settle, unwind]
  obtain ⟨n, halts⟩ := halts
  rw [run_of_halted halts]

namespace Search

variable {settings other : SearchSettings} {problem : Problem}

/--
The table of a search cannot keep it from an outcome: it has room, or the goal
holds at once, so that nothing has to be remembered.
-/
def Copes (settings : SearchSettings) (problem : Problem) : Prop :=
  settings.Roomy ∨ problem.isGoal problem.initial = true ∧ ∃ table, settings.table = .ok table

def plain? (problem : Problem) : Option Steps :=
  problem.schema.leftmost? problem.goal.toList (problem.horizon - 1) problem.initial

theorem Copes.congr (copes : Copes settings problem) (same : other.table = settings.table) :
    Copes other problem := by
  rcases copes with ⟨table, made, new⟩ | ⟨holds, table, made⟩
  · exact .inl ⟨table, same.trans made, new⟩
  · exact .inr ⟨holds, table, same.trans made⟩

section Fit

variable (fit : Fit problem.schema settings problem.initial 1 (Meter.fresh settings.budget .still))

include fit

theorem Fit.verdict_of_copes (copes : Copes settings problem) :
    (solve settings problem).map (·.verdict) =
      .ok (.ofSteps? problem.initial (plain? problem)) := by
  have order : (1 : Int) ≤ problem.horizon := by exact_mod_cast problem.horizon_pos
  have left : ((problem.horizon : Int) - 1).toNat = problem.horizon - 1 := by omega
  rcases copes with roomy | ⟨holds, table, made⟩
  · rw [plain?, ← left]
    exact (fit.run roomy problem.goal (Int.le_refl 1) order).1
  · have inOrder : ¬ ((1 : Int) < 1 ∨ (problem.horizon : Int) < 1) := by omega
    have stays := Machine.run_of_goal
      ⟨problem.schema, settings.checked, problem.goal, problem.horizon⟩ holds
      (problem.horizon - 1) table fit.unlimited.start
    have same : (problem.horizon : Int).toNat = problem.horizon := Int.toNat_natCast _
    rw [plain?, Schema.leftmost?_of_goal holds, solve, run_eq inOrder made fit.passes, left, same,
      stays]
    rfl

/-- A search that has an outcome is not kept from it by its table. -/
theorem Fit.copes_of_verdict {verdict : Verdict}
    (ends : (solve settings problem).map (·.verdict) = .ok verdict) : Copes settings problem := by
  have order : (1 : Int) ≤ problem.horizon := by exact_mod_cast problem.horizon_pos
  rcases settings.table_cases with ⟨misuse, refused⟩ | roomy | ⟨t, made, empty, narrow⟩
  · rw [solve, run_of_table_error refused problem.goal (Int.le_refl 1) order] at ends
    cases ends
  · exact .inl roomy
  · cases holds : problem.isGoal problem.initial with
    | true => exact .inr ⟨holds, some t, made⟩
    | false =>
        rw [solve, fit.run_of_narrow made empty narrow problem.goal holds (Int.le_refl 1) order]
          at ends
        cases ends

end Fit

end Search

namespace Planner

variable {planner : Planner} {clock : Clock} {d : Description} {problem : Problem}

theorem fit_of_problem (unlimited : planner.settings.budget.unlimited = true)
    (states : d.problem = .ok problem) :
    Search.Fit problem.schema planner.settings problem.initial 1
      (Meter.fresh planner.settings.budget .still) where
  built := ⟨d.objects, d.categories, (Description.problem_eq_ok_iff.mp states).built⟩
  verified _ := by
    obtain ⟨accepted, sameScope, sane⟩ := Description.sane_of_problem states
    exact ⟨sameScope, (Schema.verify_eq_ok_iff accepted sameScope _ _).mpr sane⟩
  unlimited := Meter.unlimited_fresh unlimited .still

/-- A planner without bounds returns the verdict of a search without branches. -/
theorem verdict_of_returns
    (fit : Search.Fit problem.schema planner.settings problem.initial 1
      (Meter.fresh planner.settings.budget .still)) {result : Except Fault Finding}
    (returns : planner.Returns clock problem result) :
    result.map (·.verdict) = (Search.solve planner.settings problem).map (·.verdict) := by
  have unlimited : (Meter.fresh planner.settings.budget clock).Unlimited :=
    Meter.unlimited_fresh fit.unlimited.unbounded clock
  cases returns with
  | alone single =>
      rw [Search.solve, Search.run_outcome_eq unlimited fit.unlimited]
      cases (Search.run problem.schema planner.settings problem.initial problem.goal
        problem.horizon 1 (Meter.fresh planner.settings.budget .still)).1 <;> rfl
  | @together _ workers employs result returns =>
      rw [← Branching.verdict_of_returnsFrom fit unlimited.start returns]
      cases result <;> rfl

end Planner

end StackingPlanner
