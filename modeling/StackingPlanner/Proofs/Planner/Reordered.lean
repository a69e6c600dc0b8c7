import StackingPlanner.Proofs.Planner.Discipline
import StackingPlanner.Proofs.Schema.Reordered

/-!
# The order of a description does not matter

A description can be written down in many ways that differ in the order of its
objects, categories and literals and in how often a literal is repeated.  All
of them are refused, or all of them state one problem, up to the order in which
its schema lists its categories.  A search reads the objects and the actions of
a schema and never that list, so a planner finds the same for all of them.
-/

namespace StackingPlanner

/-! ## Searches do not read the list of categories -/

namespace Machine

/-- Tasks for which a machine makes the same steps are run alike. -/
theorem run_congr {task other : SearchTask} (same : ∀ m, step other m = step task m)
    (m : Machine) : run other m = run task m := by
  fun_induction run task m with
  | case1 m n next ih =>
      rw [run, same, next]
      exact ih
  | case2 m ending n next =>
      rw [run, same, next]

end Machine

namespace Search

/-- With the categories of its schema listed in another way a search runs the same. -/
theorem run_listing (schema : Schema) (categories : List Category) (settings : SearchSettings)
    (initial : State) (goal : OrderedSet Literal) (horizon startStep : Int) (meter : Meter) :
    run (schema.listing categories) settings initial goal horizon startStep meter =
      run schema settings initial goal horizon startStep meter := by
  have sameCheck : ∀ step, settings.checkStart (schema.listing categories) initial step =
      settings.checkStart schema initial step := fun _ => rfl
  have sameRun : ∀ m, Machine.run
        ⟨schema.listing categories, settings.checked, goal, horizon.toNat⟩ m =
      Machine.run ⟨schema, settings.checked, goal, horizon.toNat⟩ m :=
    Machine.run_congr (fun _ => rfl)
  simp only [run, runFrom, sameCheck, sameRun]

end Search

/-! ## Descriptions that say the same in another order -/

namespace Description

/--
Two descriptions differ at most in the order of their objects, their categories
and their literals, and in how often they repeat a literal.
-/
structure Rearranges (d e : Description) : Prop where
  objects : d.objects.Perm e.objects
  categories : d.categories.Perm e.categories
  initial : ∀ l, l ∈ d.initial ↔ l ∈ e.initial
  goal : ∀ l, l ∈ d.goal ↔ l ∈ e.goal
  horizon : d.horizon = e.horizon

theorem Rearranges.shown {d e : Description} (rearranges : d.Rearranges e) (shown : d.Shown) :
    e.Shown where
  capacities c member := shown.capacities c (rearranges.categories.mem_iff.mpr member)
  horizon := rearranges.horizon ▸ shown.horizon

theorem Rearranges.symm {d e : Description} (rearranges : d.Rearranges e) : e.Rearranges d where
  objects := rearranges.objects.symm
  categories := rearranges.categories.symm
  initial l := (rearranges.initial l).symm
  goal l := (rearranges.goal l).symm
  horizon := rearranges.horizon.symm

end Description

def Problem.listing (problem : Problem) (categories : List Category) : Problem :=
  { problem with schema := problem.schema.listing categories }

/-- Whoever says the same in another order states the same problem. -/
theorem Description.Rearranges.problem_eq {d e : Description} (rearranges : d.Rearranges e)
    {problem : Problem} (states : e.problem = .ok problem) :
    ∃ categories, categories.Perm problem.schema.categories ∧
      d.problem = .ok (problem.listing categories) := by
  obtain ⟨built, described, demanded, read⟩ := problem_eq_ok_iff.mp states
  obtain ⟨categories, same, alsoBuilt⟩ :=
    Schema.build_perm rearranges.objects rearranges.categories built
  have accepted := Schema.accepted_of_build built
  have alsoDescribed := Schema.initialState_congr accepted rearranges.initial described
  have alsoDemanded := Schema.goal_congr accepted rearranges.goal demanded
  exact ⟨categories, same, problem_eq_ok_iff.mpr
    ⟨alsoBuilt, alsoDescribed, alsoDemanded, rearranges.horizon ▸ read⟩⟩

/-- What is told of a finding: its status, its plan, its timeline and its statistics. -/
def Finding.told (f : Finding) : Verdict × Option Plan × Option Timeline × Statistics :=
  (f.verdict, f.plan?, f.timeline?, f.statistics)

namespace Planner

variable {planner : Planner} {clock : Clock} {problem : Problem}

/-- A planner with one worker returns what one search finds, and nothing else. -/
theorem returns_iff_of_single (single : planner.branches = false) {result : Except Fault Finding} :
    planner.Returns clock problem result ↔
      result = (Search.run problem.schema planner.settings problem.initial problem.goal
        problem.horizon 1 (Meter.fresh planner.settings.budget clock)).1.map
          (conclude problem) := by
  constructor
  · intro returns
    cases returns with
    | alone _ => rfl
    | together several => cases single.symm.trans several
  · rintro rfl
    exact .alone single

/-- The same is told of a problem however its schema lists its categories. -/
theorem told_listing (single : planner.branches = false) (categories : List Category)
    {first second : Except Fault Finding} (returns : planner.Returns clock problem first)
    (other : planner.Returns clock (problem.listing categories) second) :
    second.map Finding.told = first.map Finding.told := by
  rw [returns_iff_of_single single] at returns other
  have sameRun := Search.run_listing problem.schema categories planner.settings problem.initial
    problem.goal problem.horizon 1 (Meter.fresh planner.settings.budget clock)
  have second_eq : second = (Search.run problem.schema planner.settings problem.initial
      problem.goal problem.horizon 1 (Meter.fresh planner.settings.budget clock)).1.map
        (conclude (problem.listing categories)) := by
    rw [← sameRun]
    exact other
  rw [returns, second_eq]
  cases (Search.run problem.schema planner.settings problem.initial problem.goal problem.horizon 1
    (Meter.fresh planner.settings.budget clock)).1 <;> rfl

/--
Two descriptions that say the same in another order are both refused, by
failures that blame them, or state problems with the same fluents, the same
actions in the same order, the same initial state, the same goal and the same
horizon.  Then a planner with one worker returns for both, whatever its clock
shows, and tells the same of both: status, plan, timeline and statistics.  A
refusal is an error that blames the description unless it would show a value that
cannot be shown; then the error is that on showing it.
-/
theorem rearranged_alike {d e : Description} (rearranges : d.Rearranges e) :
    (∃ failure other, d.problem = .error failure ∧ e.problem = .error other ∧
        failure.isConfiguration = true ∧ other.isConfiguration = true ∧
        failure.BlamesOrEscapes d.Shown ∧ other.BlamesOrEscapes d.Shown) ∨
      ∃ problem other, d.problem = .ok problem ∧ e.problem = .ok other ∧
        problem.schema.scope = other.schema.scope ∧
        problem.schema.actions = other.schema.actions ∧
        problem.initial = other.initial ∧ problem.goal = other.goal ∧
        problem.horizon = other.horizon ∧
        ∀ (planner : Planner) (clock : Clock), planner.branches = false →
          ∃ first second, (∀ result, planner.Returns clock problem result ↔ result = first) ∧
            (∀ result, planner.Returns clock other result ↔ result = second) ∧
            first.map Finding.told = second.map Finding.told := by
  cases states : e.problem with
  | error other =>
      cases alsoStates : d.problem with
      | error failure =>
          have blames : BlamesDescription d.Shown e.problem :=
            e.problem_blames.mono rearranges.shown
          exact .inl ⟨failure, other, rfl, rfl, (d.problem_blames failure alsoStates).1,
            (blames other states).1, d.problem_blames.blamesOrEscapes alsoStates,
            blames.blamesOrEscapes states⟩
      | ok problem =>
          obtain ⟨_, _, accepted⟩ := rearranges.symm.problem_eq alsoStates
          cases states.symm.trans accepted
  | ok other =>
      obtain ⟨categories, _, alsoStates⟩ := rearranges.problem_eq states
      refine .inr ⟨other.listing categories, other, alsoStates, rfl, rfl, rfl, rfl, rfl, rfl,
        fun planner clock single => ?_⟩
      have first := @returns_iff_of_single planner clock (other.listing categories) single
      have second := @returns_iff_of_single planner clock other single
      exact ⟨_, _, fun _ => first, fun _ => second,
        told_listing single categories (second.mpr rfl) (first.mpr rfl)⟩

/-- The lone disc, with everything listed from the end and literals repeated. -/
def loneDiscReordered : Description where
  categories := Puzzle.Tower.categories.reverse
  objects := Search.loneDiscObjects.reverse
  initial := [.holds (.on "a" "p"), .holds (.on "a" "p")]
  goal := [.holds (.on "a" "q"), .holds (.on "a" "q"), .holds (.on "a" "q")]
  horizon := .whole 5

theorem rearranges_loneDisc : loneDiscReordered.Rearranges loneDiscDescription where
  objects := List.reverse_perm _
  categories := List.reverse_perm _
  initial := by simp [loneDiscReordered, loneDiscDescription]
  goal := by simp [loneDiscReordered, loneDiscDescription]
  horizon := rfl

theorem problem_loneDisc_withHorizon {horizon : Int} (below : horizon < 1) :
    (loneDiscDescription.withHorizon (.whole horizon)).problem =
      .error (.horizonBelowOne horizon) := by
  obtain ⟨built, described, demanded, -⟩ :=
    Description.problem_eq_ok_iff.mp problem_loneDiscDescription
  have refused : Problem.readHorizon (.whole horizon) = .error (.horizonBelowOne horizon) :=
    dif_neg (Int.not_le.mpr below)
  simp only [Description.withHorizon, Description.problem, Description.schema, built, described,
    demanded, Problem.make, refused, bind, Except.bind]

/--
The lone disc is described as well in another order, and with a horizon far below
one it is refused in both orders, without being told so.
-/
theorem rearranged_alike_loneDisc :
    loneDiscReordered.Rearranges loneDiscDescription ∧
      (∃ problem, loneDiscReordered.problem = .ok problem ∧
        problem.initial = Search.loneDiscStart ∧
        problem.schema.actions = Search.loneDisc.actions) ∧
      ∃ failure other,
        (loneDiscReordered.withHorizon (.whole (-10 ^ Number.mostDigits))).problem =
          .error failure ∧
        (loneDiscDescription.withHorizon (.whole (-10 ^ Number.mostDigits))).problem =
          .error other ∧
        other.report = Value.Excess.longNumber.report := by
  refine ⟨rearranges_loneDisc, ?_, ?_⟩
  · rcases rearranged_alike rearranges_loneDisc with
      ⟨_, failure, _, refused, _⟩ | ⟨problem, other, states, alsoStates, _, actions, initial, _⟩
    · cases problem_loneDiscDescription.symm.trans refused
    · cases problem_loneDiscDescription.symm.trans alsoStates
      exact ⟨problem, states, initial, actions⟩
  · have escapes : ∀ horizon : Int, horizon < 1 → ¬ Number.Short horizon → ∃ failure other,
        (loneDiscReordered.withHorizon (.whole horizon)).problem = .error failure ∧
        (loneDiscDescription.withHorizon (.whole horizon)).problem = .error other ∧
        other.report = Value.Excess.longNumber.report := by
      intro horizon below long
      have rearranges : (loneDiscReordered.withHorizon (.whole horizon)).Rearranges
          (loneDiscDescription.withHorizon (.whole horizon)) :=
        { rearranges_loneDisc with horizon := rfl }
      have refused := problem_loneDisc_withHorizon below
      rcases rearranged_alike rearranges with
        ⟨failure, other, fails, alsoFails, _, _, _, comesOut⟩ | ⟨_, _, _, states, _⟩
      · cases refused.symm.trans alsoFails
        exact ⟨failure, _, fails, refused, comesOut.escapes .longNumber (if_neg long)⟩
      · cases refused.symm.trans states
    exact escapes (-10 ^ Number.mostDigits) Number.neg_pow_lt_one
      (Number.not_short_neg_pow Nat.le.refl)

end Planner

end StackingPlanner
