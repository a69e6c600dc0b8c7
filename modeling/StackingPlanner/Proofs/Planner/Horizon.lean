import StackingPlanner.Proofs.PlanCheck.Played
import StackingPlanner.Proofs.Planner.Unlimited
import Mathlib.Data.Nat.Find

/-!
# A longer horizon only delays the plan

The plain search tries to do nothing before it tries anything else.  So when it
finds a plan in time, with a step more it does nothing at first and then finds
the same plan: its actions are made one step later.  When it finds no plan, it
finds none with fewer steps either.  Planners without bounds return what the
plain search finds, so the same is true of them, whichever of them solves the
problem with the other horizon.
-/

namespace StackingPlanner

theorem Problem.readHorizon_whole {n : Nat} (positive : 1 ≤ n) :
    readHorizon (.whole n) = .ok ⟨n, positive⟩ := by
  have large : (1 : Int) ≤ n := by exact_mod_cast positive
  exact dif_pos large

def Problem.withHorizon (problem : Problem) (horizon : Nat) (positive : 1 ≤ horizon) : Problem :=
  { problem with horizon, horizon_pos := positive }

theorem Description.problem_withHorizon {d : Description} {problem : Problem}
    (states : d.problem = .ok problem) {horizon : Nat} (positive : 1 ≤ horizon) :
    (d.withHorizon (.whole horizon)).problem = .ok (problem.withHorizon horizon positive) := by
  obtain ⟨built, initial, goal, -⟩ := problem_eq_ok_iff.mp states
  exact problem_eq_ok_iff.mpr ⟨built, initial, goal, Problem.readHorizon_whole positive⟩

namespace Timeline

variable {s : State} {steps : Steps}

/-- The plan of steps before which nothing is done makes its actions that much later. -/
theorem plan_idle (s : State) (steps : Steps) (more : Nat) :
    (ofSteps s (List.replicate more (none, s) ++ steps)).plan =
      (ofSteps s steps).plan.delayed more := by
  have choices : (List.replicate more ((none : Choice), s) ++ steps).map (·.1) =
      List.replicate more none ++ steps.map (·.1) := by
    rw [List.map_append, List.map_replicate]
  have later : (ofSteps s (List.replicate more (none, s) ++ steps)).plan.steps =
      Plan.stepsFrom 1 (List.replicate more none ++ steps.map (·.1)) :=
    congrArg (Plan.stepsFrom 1) choices
  rw [Plan.stepsFrom_replicate_append, Plan.stepsFrom_add] at later
  exact congrArg Plan.mk later

theorem plan_stay (s : State) (count : Nat) :
    (ofSteps s (List.replicate count (none, s))).plan.steps = [] := by
  have choices : (List.replicate count ((none : Choice), s)).map (·.1) =
      List.replicate count none := List.map_replicate
  have same : (ofSteps s (List.replicate count (none, s))).plan.steps =
      Plan.stepsFrom 1 (List.replicate count none) := congrArg (Plan.stepsFrom 1) choices
  rw [same, Plan.stepsFrom_replicate_none]

end Timeline

namespace Verdict

variable {schema : Schema} {goal : List Literal} {s : State} {steps : Nat}

/-- Where the plain search finds a plan, with more steps it finds the same one that much later. -/
theorem success_delayed {t : Timeline}
    (success : ofSteps? s (schema.leftmost? goal steps s) = .success t) (more : Nat) :
    ∃ delayed, ofSteps? s (schema.leftmost? goal (steps + more) s) = .success delayed ∧
      delayed.plan = t.plan.delayed more ∧
        (s.satisfies goal = true → t.plan.steps = [] ∧ delayed.plan.steps = []) := by
  cases found : schema.leftmost? goal steps s with
  | none =>
      rw [found] at success
      cases success
  | some taken =>
      rw [found] at success
      cases success
      rw [Schema.leftmost?_add_of_some found more]
      refine ⟨_, rfl, Timeline.plan_idle s taken more, ?_⟩
      intro holds
      cases found.symm.trans (Schema.leftmost?_of_goal holds steps)
      have empty := Timeline.plan_stay s steps
      refine ⟨empty, ?_⟩
      rw [Timeline.plan_idle, Plan.delayed, empty, List.map_nil]

/-- Where the plain search finds no plan, it finds none with fewer steps. -/
theorem noPlan_of_le (none : ofSteps? s (schema.leftmost? goal steps s) = .noPlan) {fewer : Nat}
    (within : fewer ≤ steps) : ofSteps? s (schema.leftmost? goal fewer s) = .noPlan := by
  cases found : schema.leftmost? goal steps s with
  | some taken =>
      rw [found] at none
      cases none
  | none => rw [Schema.leftmost?_none_of_le found rfl within, ofSteps?]

end Verdict

namespace Planner

variable {planner other : Planner} {clock : Clock} {d : Description} {problem : Problem}

def AlwaysFinds (planner : Planner) (clock : Clock) (d : Description) (kind : Verdict → Prop) :
    Prop :=
  (∃ result, planner.ReturnsFor clock d result) ∧
    ∀ result, planner.ReturnsFor clock d result →
      ∃ finding, result = .ok finding ∧ kind finding.verdict

theorem AlwaysFinds.mono {kind wider : Verdict → Prop} (finds : planner.AlwaysFinds clock d kind)
    (implies : ∀ verdict, kind verdict → wider verdict) : planner.AlwaysFinds clock d wider := by
  refine ⟨finds.1, fun result returns => ?_⟩
  obtain ⟨finding, same, holds⟩ := finds.2 result returns
  exact ⟨finding, same, implies _ holds⟩

section Unlimited

variable (unlimited : planner.settings.budget.unlimited = true)
  (states : d.problem = .ok problem)

include unlimited states

/-- What a planner without bounds has found is not kept from it by its table. -/
theorem verdict_of_finding {finding : Finding}
    (returns : planner.ReturnsFor clock d (.ok finding)) :
    Search.Copes planner.settings problem ∧
      finding.verdict = .ofSteps? problem.initial (Search.plain? problem) := by
  have fit := fit_of_problem unlimited states
  cases returns with
  | @solved stated states' _ returns =>
      cases states.symm.trans states'
      have same := verdict_of_returns fit returns
      have copes := fit.copes_of_verdict same.symm
      rw [fit.verdict_of_copes copes] at same
      exact ⟨copes, Except.ok.inj same⟩

/-- A planner without bounds whose table copes always finds what the plain search finds. -/
theorem alwaysFinds_of_copes (copes : Search.Copes planner.settings problem) (clock : Clock) :
    planner.AlwaysFinds clock d (· = .ofSteps? problem.initial (Search.plain? problem)) := by
  have fit := fit_of_problem unlimited states
  refine ⟨planner.exists_returnsFor clock d, fun result returns => ?_⟩
  cases returns with
  | refused senseless => cases states.symm.trans senseless
  | @solved stated states' _ returns =>
      cases states.symm.trans states'
      have same := (verdict_of_returns fit returns).trans (fit.verdict_of_copes copes)
      exact Except.exists_of_map_eq_ok same

end Unlimited

/--
If the goal of a problem can be reached at all, there is a least horizon from
which on all planners without bounds whose tables have room find a plan, and
below which they all find that there is none.
-/
theorem exists_leastHorizon (states : d.problem = .ok problem) {steps : Nat}
    (reaches : problem.schema.Reaches problem.goal.toList problem.initial steps) :
    ∃ least : Nat, 1 ≤ least ∧ ∀ (planner : Planner) (clock : Clock),
      planner.settings.budget.unlimited = true → planner.settings.HasRoom →
        (∀ horizon : Nat, 1 ≤ horizon → horizon < least →
          planner.AlwaysFinds clock (d.withHorizon (.whole horizon)) (· = .noPlan)) ∧
        ∀ horizon : Nat, least ≤ horizon →
          planner.AlwaysFinds clock (d.withHorizon (.whole horizon)) (·.isSuccess = true) := by
  classical
  have some : ∃ n, problem.schema.Reaches problem.goal.toList problem.initial n := ⟨steps, reaches⟩
  refine ⟨Nat.find some + 1, Nat.succ_pos _, fun planner clock unlimited room => ?_⟩
  have finds : ∀ n : Nat, 1 ≤ n → planner.AlwaysFinds clock (d.withHorizon (.whole n))
      (· = .ofSteps? problem.initial
        (problem.schema.leftmost? problem.goal.toList (n - 1) problem.initial)) := fun n atLeast =>
    alwaysFinds_of_copes unlimited (Description.problem_withHorizon states atLeast)
      (.inl room.roomy) clock
  constructor
  · intro horizon positive below
    have early : ¬ problem.schema.Reaches problem.goal.toList problem.initial (horizon - 1) :=
      Nat.find_min some (by omega)
    rw [← Schema.leftmost?_eq_none_iff] at early
    apply (finds horizon positive).mono
    rintro _ rfl
    rw [early, Verdict.ofSteps?]
  · intro horizon above
    have late := (Nat.find_spec some).mono (by omega : Nat.find some ≤ horizon - 1)
    obtain ⟨taken, found⟩ := Option.isSome_iff_exists.mp (Schema.leftmost?_isSome_iff.mpr late)
    apply (finds horizon (by omega)).mono
    rintro _ rfl
    rw [found, Verdict.ofSteps?, Verdict.isSuccess]

/--
If a planner without bounds finds a plan with some horizon, every planner without
bounds finds with any longer horizon the plan with the same actions, each of
them made as many steps later as the horizon is longer; where the goal holds at
once both plans are empty.  If it finds that there is no plan, every planner
without bounds finds so with any shorter horizon.  The tables of the two may
differ if the second one has room.
-/
theorem longer_horizon_delays (states : d.problem = .ok problem)
    (unlimited : planner.settings.budget.unlimited = true)
    (alsoUnlimited : other.settings.budget.unlimited = true)
    (tables : other.settings.table = planner.settings.table ∨ other.settings.HasRoom)
    {horizon : Nat} (positive : 1 ≤ horizon) {finding : Finding}
    (returns : planner.ReturnsFor clock (d.withHorizon (.whole horizon)) (.ok finding))
    (later : Clock) :
    (∀ t, finding.verdict = .success t → ∀ more : Nat,
        other.AlwaysFinds later (d.withHorizon (.whole (horizon + more : Nat))) (fun verdict =>
          ∃ delayed, verdict = .success delayed ∧ delayed.plan = t.plan.delayed more ∧
            (problem.isGoal problem.initial = true →
              t.plan.steps = [] ∧ delayed.plan.steps = []))) ∧
      (finding.verdict = .noPlan → ∀ shorter : Nat, 1 ≤ shorter → shorter ≤ horizon →
        other.AlwaysFinds later (d.withHorizon (.whole shorter)) (· = .noPlan)) := by
  obtain ⟨copes, found⟩ :=
    verdict_of_finding unlimited (Description.problem_withHorizon states positive) returns
  -- Whether a table copes does not depend on the horizon.
  have also : Search.Copes other.settings problem := by
    rcases tables with same | room
    · exact Search.Copes.congr copes same
    · exact .inl room.roomy
  have finds : ∀ n : Nat, 1 ≤ n → other.AlwaysFinds later (d.withHorizon (.whole n))
      (· = .ofSteps? problem.initial
        (problem.schema.leftmost? problem.goal.toList (n - 1) problem.initial)) := by
    intro n atLeast
    exact alwaysFinds_of_copes alsoUnlimited (Description.problem_withHorizon states atLeast)
      also later
  constructor
  · intro t success more
    have count : horizon + more - 1 = horizon - 1 + more := by omega
    apply (finds (horizon + more) (by omega)).mono
    rintro _ rfl
    rw [count]
    exact Verdict.success_delayed (found.symm.trans success) more
  · intro none shorter atLeast within
    apply (finds shorter atLeast).mono
    rintro _ rfl
    exact Verdict.noPlan_of_le (found.symm.trans none) (Nat.sub_le_sub_right within 1)

/-- With one step more the disc is moved one step later. -/
theorem longer_horizon_delays_loneDisc :
    ∃ finding t, pair.solveDescription loneDiscDescription = .ok finding ∧
      finding.verdict = .success t ∧
      pair.AlwaysFinds .still (loneDiscDescription.withHorizon (.whole 6)) (fun verdict =>
        ∃ delayed, verdict = .success delayed ∧ delayed.plan = t.plan.delayed 1) := by
  have reachable : (Search.plain? Branching.loneDiscProblem).isSome = true := by decide +kernel
  obtain ⟨steps, found⟩ := Option.isSome_iff_exists.mp reachable
  have finds : pair.AlwaysFinds .still loneDiscDescription _ :=
    alwaysFinds_of_copes rfl problem_loneDiscDescription (.inl hasRoom_pair.roomy) .still
  obtain ⟨finding, solved, verdict⟩ := finds.2 _ (pair.returnsFor_solveDescription _)
  rw [found] at verdict
  have returns : pair.ReturnsFor .still (loneDiscDescription.withHorizon (.whole 5))
      (.ok finding) := solved ▸ pair.returnsFor_solveDescription loneDiscDescription
  have delays := (longer_horizon_delays problem_loneDiscDescription rfl rfl (.inl rfl) (by decide)
    returns .still).1 _ verdict 1
  refine ⟨finding, _, solved, verdict, delays.mono ?_⟩
  rintro _ ⟨delayed, same, later, _⟩
  exact ⟨delayed, same, later⟩

end Planner

end StackingPlanner
