import StackingPlanner.Proofs.PlanCheck.CarriedOut
import StackingPlanner.Proofs.Search.Pool

/-!
# What a diagnosis says about a plan

A diagnosis carries out the actions of a plan one after another and stops at the
first that cannot be done, or that comes after the goal held.  It passes over
the steps in between, but since nothing changes there it finds the states that
the plan leads to.  So it finds no fault exactly in valid plans, and the fault
that it finds is the first there is.
-/

namespace StackingPlanner

namespace State

/-- What does not hold of a set of literals in a state, in order. -/
structure Lacks (s : State) (demanded : OrderedSet Literal) (missing : List Literal) : Prop where
  ascending : missing.Pairwise (· < ·)
  mem_iff : ∀ l, l ∈ missing ↔ l ∈ demanded ∧ s.holds l = false

theorem missing_toList (s : State) (demanded : OrderedSet Literal) :
    s.missing demanded.toList = demanded.toList.filter (fun l => !s.holds l) := by
  refine List.mergeSort_of_pairwise ((demanded.ascending.filter _).imp (fun below => ?_))
  simp only [Bool.not_eq_true', decide_eq_false_iff_not]
  exact fun above => StrictOrder.irrefl _ (StrictOrder.trans below above)

theorem lacks_missing (s : State) (demanded : OrderedSet Literal) :
    s.Lacks demanded (s.missing demanded.toList) := by
  rw [missing_toList]
  refine ⟨demanded.ascending.filter _, fun l => ?_⟩
  rw [List.mem_filter, Bool.not_eq_true', OrderedSet.mem_def]

theorem missing_ne_nil {s : State} {demanded : OrderedSet Literal}
    (unmet : s.satisfies demanded.toList = false) : s.missing demanded.toList ≠ [] := by
  obtain ⟨l, member, fails⟩ := List.all_eq_false.mp unmet
  have missing := ((s.lacks_missing demanded).mem_iff l).mpr ⟨member, Bool.not_eq_true _ ▸ fails⟩
  exact List.ne_nil_of_mem missing

end State

namespace Problem

variable {problem : Problem} {plan : Plan}

/-- A plan that achieves the goal of a problem in time and then does nothing more. -/
structure Valid (problem : Problem) (plan : Plan) : Prop where
  ascending : plan.steps.Pairwise (fun e f => e.1 < f.1)
  within : ∀ e ∈ plan.steps, 1 ≤ e.1 ∧ e.1 ≤ problem.horizon - 1
  /-- Every action finds what it demands. -/
  executable : ∀ e ∈ plan.steps, e.2.isExecutable (problem.stateAt plan e.1) = true
  /-- The goal never holds before an action. -/
  unmet : ∀ e ∈ plan.steps, ∀ t, 1 ≤ t → t ≤ e.1 → problem.isGoal (problem.stateAt plan t) = false
  reached : problem.isGoal (problem.stateAt plan problem.horizon) = true

/-- An action comes when the goal holds, or it cannot be done. -/
def Offends (problem : Problem) (plan : Plan) (e : Int × Action) : Prop :=
  problem.isGoal (problem.stateAt plan e.1) = true ∨
    e.2.isExecutable (problem.stateAt plan e.1) = false

/-- What a diagnosis can say about a plan whose steps fit. -/
inductive Diagnosed (problem : Problem) (plan : Plan) : Option (PlanFault Int) → Prop where
  | afterGoal {before after : List (Int × Action)} {step : Int} {a : Action} (goalStep : Int)
      (split : plan.steps = before ++ (step, a) :: after)
      (clean : ∀ e ∈ before, ¬ problem.Offends plan e)
      (held : problem.isGoal (problem.stateAt plan step) = true) :
      Diagnosed problem plan (some (.afterGoal a step (problem.stateAt plan step) goalStep))
  | notExecutable {before after : List (Int × Action)} {step : Int} {a : Action}
      (split : plan.steps = before ++ (step, a) :: after)
      (clean : ∀ e ∈ before, ¬ problem.Offends plan e)
      (unmet : problem.isGoal (problem.stateAt plan step) = false)
      (refused : a.isExecutable (problem.stateAt plan step) = false) :
      Diagnosed problem plan (some (.notExecutable a step (problem.stateAt plan step)
        (a.missing (problem.stateAt plan step))))
  | goalMissed (clean : ∀ e ∈ plan.steps, ¬ problem.Offends plan e)
      (unmet : problem.isGoal (problem.stateAt plan problem.horizon) = false) :
      Diagnosed problem plan (some (.goalMissed problem.horizon
        (problem.stateAt plan problem.horizon)
        ((problem.stateAt plan problem.horizon).missing problem.goal.toList)))
  | faultless (clean : ∀ e ∈ plan.steps, ¬ problem.Offends plan e)
      (reached : problem.isGoal (problem.stateAt plan problem.horizon) = true) :
      Diagnosed problem plan none

/-- The steps of a valid plan fit. -/
theorem Valid.fits (valid : problem.Valid plan) : plan.stepFault? problem.horizon = none := by
  refine Plan.checkSteps_eq_none_iff.mpr ⟨valid.ascending, fun e member => ?_⟩
  have := valid.within e member
  omega

/-- A fault names the first action that comes when the goal holds or that cannot be done. -/
structure BlamesAction (problem : Problem) (plan : Plan) (fault : PlanFault Int) (step : Int)
    (a : Action) : Prop where
  listed : (step, a) ∈ plan.steps
  offends : problem.Offends plan (step, a)
  first : ∀ e ∈ plan.steps, problem.Offends plan e → step ≤ e.1
  step_eq : fault.step? = some step
  action_eq : fault.action? = some a
  state_eq : fault.state? = some (problem.stateAt plan step)
  /-- Where the goal holds, that alone is held against the action. -/
  held : problem.isGoal (problem.stateAt plan step) = true → fault.missing = []
  unmet : problem.isGoal (problem.stateAt plan step) = false →
    (problem.stateAt plan step).Lacks a.preconditions fault.missing

/-- A fault says that the goal is missed, and nothing can be held against any action. -/
structure BlamesGoal (problem : Problem) (plan : Plan) (fault : PlanFault Int) : Prop where
  clean : ∀ e ∈ plan.steps, ¬ problem.Offends plan e
  step_eq : fault.step? = some (problem.horizon : Int)
  action_eq : fault.action? = none
  state_eq : fault.state? = some (problem.stateAt plan problem.horizon)
  lacks : (problem.stateAt plan problem.horizon).Lacks problem.goal fault.missing
  missing_ne_nil : fault.missing ≠ []

theorem Diagnosed.blames {fault : PlanFault Int} (fits : plan.stepFault? problem.horizon = none)
    (said : problem.Diagnosed plan (some fault)) :
    (∃ step a, problem.BlamesAction plan fault step a) ∨ problem.BlamesGoal plan fault := by
  cases said with
  | @afterGoal before after step a goalStep split clean held =>
      exact .inl ⟨step, a, Plan.mem_of_split split, .inl held, Plan.le_of_split fits split clean,
        rfl, rfl, rfl, fun _ => rfl, fun unmet => absurd held (ne_true_of_eq_false unmet)⟩
  | @notExecutable before after step a split clean unmet refused =>
      exact .inl ⟨step, a, Plan.mem_of_split split, .inr refused,
        Plan.le_of_split fits split clean, rfl, rfl, rfl,
        fun held => absurd held (ne_true_of_eq_false unmet), fun _ => State.lacks_missing _ _⟩
  | goalMissed clean unmet =>
      exact .inr ⟨clean, rfl, rfl, rfl, State.lacks_missing _ _, State.missing_ne_nil unmet⟩

end Problem

end StackingPlanner
