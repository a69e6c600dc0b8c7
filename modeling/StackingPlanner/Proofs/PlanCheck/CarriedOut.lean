import Mathlib.Algebra.Order.Ring.Int
import Mathlib.Data.List.Nodup
import StackingPlanner.PlanCheck

/-!
# Plans that are carried out

A plan is carried out from the initial state of a problem: each of its actions
is done at its step, whether it can be or not, and nothing is done at the steps
in between.  So nothing changes until the step of the next action, and a state
before that is the one in which this action finds the objects.
-/

namespace StackingPlanner

namespace Plan

variable {p : Plan} {horizon : Nat} {t : Int} {a : Action}

/-- The steps that fit ascend from above a step and lie before the horizon. -/
theorem checkSteps_eq_none_iff {previous : Int} {steps : List (Int × Action)} :
    checkSteps horizon previous steps = none ↔ steps.Pairwise (fun e f => e.1 < f.1) ∧
      ∀ e ∈ steps, previous < e.1 ∧ e.1 < horizon := by
  induction steps generalizing previous with
  | nil => simp [checkSteps]
  | cons entry rest ih =>
      rw [checkSteps, List.pairwise_cons, List.forall_mem_cons]
      split
      · simp
        omega
      · split
        · simp
          omega
        · rw [ih]
          constructor
          · rintro ⟨ascending, within⟩
            refine ⟨⟨fun e member => (within e member).1, ascending⟩, by omega, ?_⟩
            exact fun e member => ⟨by have := within e member; omega, (within e member).2⟩
          · rintro ⟨⟨above, ascending⟩, -, within⟩
            exact ⟨ascending, fun e member => ⟨above e member, (within e member).2⟩⟩

theorem choiceAt_eq_none_iff : p.choiceAt t = none ↔ ∀ e ∈ p.steps, e.1 ≠ t := by
  simp [choiceAt]

theorem mem_of_choiceAt (chosen : p.choiceAt t = some a) : (t, a) ∈ p.steps := by
  obtain ⟨e, found, rfl⟩ := Option.map_eq_some_iff.mp chosen
  have here : e.1 = t := by simpa using List.find?_some found
  exact here ▸ List.mem_of_find?_eq_some found

theorem mem_of_split {before after : List (Int × Action)} {e : Int × Action}
    (split : p.steps = before ++ e :: after) : e ∈ p.steps :=
  split ▸ List.mem_append_right _ List.mem_cons_self

section Fits

variable (fits : p.stepFault? horizon = none)

include fits

theorem ascending_of_fits : p.steps.Pairwise (fun e f => e.1 < f.1) :=
  (checkSteps_eq_none_iff.mp fits).1

theorem within_of_fits {e : Int × Action} (member : e ∈ p.steps) : 1 ≤ e.1 ∧ e.1 < horizon :=
  (checkSteps_eq_none_iff.mp fits).2 e member

/-- Where its steps fit, a plan has at each step the action that it lists there. -/
theorem choiceAt_eq_some_iff : p.choiceAt t = some a ↔ (t, a) ∈ p.steps := by
  refine ⟨mem_of_choiceAt, fun member => ?_⟩
  have distinct : (p.steps.map (·.1)).Nodup :=
    List.pairwise_map.mpr ((ascending_of_fits fits).imp (fun below => Int.ne_of_lt below))
  cases chosen : p.choiceAt t with
  | none => exact absurd rfl (choiceAt_eq_none_iff.mp chosen _ member)
  | some b =>
      cases List.inj_on_of_nodup_map distinct (mem_of_choiceAt chosen) member rfl
      rfl

theorem lt_of_split {before after : List (Int × Action)} {e : Int × Action}
    (split : p.steps = before ++ e :: after) : ∀ f ∈ after, e.1 < f.1 := by
  have ascending := (List.pairwise_append.mp (split ▸ ascending_of_fits fits)).2.1
  exact (List.pairwise_cons.mp ascending).1

/-- Of the steps of some kind, one that is listed before all others is the first in time. -/
theorem le_of_split {before after : List (Int × Action)} {e : Int × Action}
    {marked : Int × Action → Prop} (split : p.steps = before ++ e :: after)
    (clean : ∀ f ∈ before, ¬ marked f) : ∀ f ∈ p.steps, marked f → e.1 ≤ f.1 := by
  intro f member isMarked
  rcases List.mem_append.mp (split ▸ member) with gone | coming
  · exact absurd isMarked (clean f gone)
  · rcases List.mem_cons.mp coming with rfl | later
    · exact Int.le_refl _
    · exact Int.le_of_lt (lt_of_split fits split f later)

end Fits

end Plan

namespace Problem

variable {problem : Problem} {plan : Plan}

/-- The state after a number of steps at which what a plan says was done. -/
def afterSteps (problem : Problem) (plan : Plan) : Nat → State
  | 0 => problem.initial
  | n + 1 => (problem.afterSteps plan n).after (plan.choiceAt (n + 1))

/-- The state at a step, if before it what a plan says is done at each step. -/
def stateAt (problem : Problem) (plan : Plan) (step : Int) : State :=
  problem.afterSteps plan (step - 1).toNat

@[simp]
theorem stateAt_one : problem.stateAt plan 1 = problem.initial := rfl

end Problem

end StackingPlanner
