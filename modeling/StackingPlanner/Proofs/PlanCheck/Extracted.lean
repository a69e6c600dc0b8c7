import StackingPlanner.Proofs.PlanCheck.Agreement

/-!
# Plans and timelines determine each other

A plan lists the actions of a timeline, and carrying a plan out gives a
timeline.  Where neither is refused, each of the two ways undoes the other: a
plan that is carried out is the plan of its timeline, and a timeline that
unfolds from the initial state of a problem up to its horizon is what its plan
is carried out to.
-/

namespace StackingPlanner

namespace Plan

variable {p q : Plan} {horizon : Nat}

/-- Plans whose steps fit are the same if they do the same at every step before the horizon. -/
theorem eq_of_choiceAt (fits : p.stepFault? horizon = none) (others : q.stepFault? horizon = none)
    (same : ∀ t : Int, 1 ≤ t → t < horizon → p.choiceAt t = q.choiceAt t) : p = q := by
  have members : ∀ e, e ∈ p.steps ↔ e ∈ q.steps := by
    rintro ⟨t, a⟩
    constructor
    · intro listed
      obtain ⟨first, last⟩ := within_of_fits fits listed
      rw [← choiceAt_eq_some_iff others, ← same t first last]
      exact (choiceAt_eq_some_iff fits).mpr listed
    · intro listed
      obtain ⟨first, last⟩ := within_of_fits others listed
      rw [← choiceAt_eq_some_iff fits, same t first last]
      exact (choiceAt_eq_some_iff others).mpr listed
  have distinct : ∀ {r : Plan}, r.stepFault? horizon = none → r.steps.Nodup := fun fit =>
    (ascending_of_fits fit).imp (fun below same => Int.ne_of_lt below (congrArg Prod.fst same))
  have perm : p.steps.Perm q.steps :=
    (List.perm_ext_iff_of_nodup (distinct fits) (distinct others)).mpr members
  have steps : p.steps = q.steps :=
    perm.eq_of_pairwise (fun e f _ _ below above => absurd above (Int.lt_asymm below))
      (ascending_of_fits fits) (ascending_of_fits others)
  cases p
  cases q
  exact congrArg Plan.mk steps

end Plan

namespace Timeline

def idleFrom (first : Nat) (choices : List Choice) : List Nat :=
  (choices.zipIdx first).filterMap (fun entry => if entry.1.isNone then some entry.2 else none)

variable {first : Nat} {choices : List Choice}

@[simp]
theorem idleFrom_cons_none :
    idleFrom first (none :: choices) = first :: idleFrom (first + 1) choices := rfl

@[simp]
theorem idleFrom_cons_some {a : Action} :
    idleFrom first (some a :: choices) = idleFrom (first + 1) choices := rfl

/-- At each step there is an action or nothing is done, and never both. -/
theorem perm_steps (first : Nat) (choices : List Choice) :
    ((Plan.stepsFrom first choices).map Prod.fst ++ (idleFrom first choices).map Nat.cast).Perm
      ((List.range' first choices.length).map Nat.cast) := by
  induction choices generalizing first with
  | nil => exact .nil
  | cons choice choices ih =>
      rw [List.length_cons, List.range'_succ, List.map_cons]
      cases choice with
      | none =>
          rw [Plan.stepsFrom_cons_none, idleFrom_cons_none, List.map_cons]
          exact List.perm_middle.trans ((ih (first + 1)).cons _)
      | some a =>
          rw [Plan.stepsFrom_cons_some, idleFrom_cons_some, List.map_cons, List.cons_append]
          exact (ih (first + 1)).cons _

end Timeline

namespace Problem

variable {problem : Problem} {choiceAt : Int → Choice} {s : State} {step : Int} {count : Nat}
  {steps : Steps}

theorem choices_of_follow (followed : problem.follow choiceAt s step count = .ok steps) :
    steps.map (·.1) = (List.range count).map (fun i : Nat => choiceAt (step + i)) := by
  induction count generalizing s step steps with
  | zero =>
      cases followed
      rfl
  | succ count ih =>
      obtain ⟨next, advanced, followed⟩ := Except.exists_of_bind_eq_ok followed
      obtain ⟨rest, onward, built⟩ := Except.exists_of_bind_eq_ok followed
      cases built
      rw [List.map_cons, ih onward, List.range_succ_eq_map, List.map_cons, List.map_map]
      congr 2
      · rw [Int.natCast_zero, Int.add_zero]
      · funext i
        rw [Function.comp_apply, Int.natCast_succ, Int.add_right_comm, ← Int.add_assoc]

theorem allows_of_advance {t : State} {choice : Choice} {at? : Value}
    (known : ∀ a, choice = some a → a ∈ problem.schema.actions)
    (advanced : problem.schema.advance true s choice at? = .ok t) :
    problem.schema.Allows s choice := by
  cases choice with
  | none => trivial
  | some a =>
      obtain ⟨_, executable, -⟩ := Except.exists_of_bind_eq_ok advanced
      refine ⟨known a rfl, ?_⟩
      by_contra stuck
      rw [Schema.checkExecutable, if_neg stuck] at executable
      cases executable

/-- Actions of the schema are followed along a trail. -/
theorem exists_trail_of_follow (known : ∀ t a, choiceAt t = some a → a ∈ problem.schema.actions)
    (followed : problem.follow choiceAt s step count = .ok steps) :
    ∃ last, problem.schema.Trail s steps last := by
  induction count generalizing s step steps with
  | zero =>
      cases followed
      exact ⟨s, .nil s⟩
  | succ count ih =>
      obtain ⟨next, advanced, followed⟩ := Except.exists_of_bind_eq_ok followed
      obtain ⟨rest, onward, built⟩ := Except.exists_of_bind_eq_ok followed
      cases built
      obtain rfl := Schema.eq_after_of_advance advanced
      obtain ⟨last, trail⟩ := ih onward
      exact ⟨last, .cons (allows_of_advance (known step) advanced) trail⟩

variable {plan : Plan} {t : Timeline}

theorem exists_steps_of_simulate (simulated : problem.simulate plan = .ok t) :
    plan.stepFault? problem.horizon = none ∧
      ∃ steps, problem.follow plan.choiceAt problem.initial 1 (problem.horizon - 1) = .ok steps ∧
        t = Timeline.ofSteps problem.initial steps := by
  cases fits : plan.stepFault? problem.horizon with
  | some fault =>
      rw [simulate, fits] at simulated
      cases simulated
  | none =>
      cases followed : problem.follow plan.choiceAt problem.initial 1 (problem.horizon - 1) with
      | error failure =>
          rw [simulate, fits, timelineOf, followed] at simulated
          cases simulated
      | ok steps =>
          rw [simulate, fits, timelineOf, followed] at simulated
          cases simulated
          exact ⟨rfl, steps, rfl, rfl⟩

theorem horizon_of_simulate (simulated : problem.simulate plan = .ok t) :
    t.horizon = problem.horizon := by
  obtain ⟨-, steps, followed, rfl⟩ := exists_steps_of_simulate simulated
  have count := congrArg List.length (choices_of_follow followed)
  rw [List.length_map, List.length_map, List.length_range] at count
  have positive := problem.horizon_pos
  rw [Timeline.horizon_ofSteps, count]
  omega

/-- A plan that is carried out is the plan of its timeline. -/
theorem plan_of_simulate (simulated : problem.simulate plan = .ok t) : t.plan = plan := by
  have long := horizon_of_simulate simulated
  obtain ⟨fits, steps, followed, rfl⟩ := exists_steps_of_simulate simulated
  have others := (Timeline.ofSteps problem.initial steps).fits_plan problem.horizon_pos long.le
  refine Plan.eq_of_choiceAt others fits (fun u first last => ?_)
  obtain ⟨i, rfl⟩ := Int.le.dest first
  have choices : (Timeline.ofSteps problem.initial steps).choices =
      (List.range (problem.horizon - 1)).map (fun i : Nat => plan.choiceAt (1 + i)) :=
    choices_of_follow followed
  rw [Timeline.choiceAt_plan, choices, List.getElem?_map, List.getElem?_range (by omega)]
  rfl

theorem unfolds_of_simulate (known : plan.DrawsOn problem.schema)
    (simulated : problem.simulate plan = .ok t) :
    t.Unfolds problem.schema problem.initial := by
  obtain ⟨-, steps, followed, rfl⟩ := exists_steps_of_simulate simulated
  have drawn : ∀ u a, plan.choiceAt u = some a → a ∈ problem.schema.actions :=
    fun u a chosen => known a (List.mem_map_of_mem (Plan.mem_of_choiceAt chosen))
  obtain ⟨last, trail⟩ := exists_trail_of_follow drawn followed
  exact trail.unfolds

/-- Where no choice is refused, a timeline that unfolds is what its plan is carried out to. -/
theorem simulate_of_unfolds (smooth : problem.schema.Smooth true problem.initial)
    (long : t.horizon = problem.horizon) (unfolds : t.Unfolds problem.schema problem.initial) :
    problem.simulate t.plan = .ok t := by
  obtain ⟨steps, last, trail, rfl⟩ := unfolds.exists_trail
  rw [Timeline.horizon_ofSteps] at long
  exact simulate_of_trail trail smooth (by omega)

theorem drawsOn_of_unfolds (unfolds : t.Unfolds problem.schema problem.initial) :
    t.plan.DrawsOn problem.schema := by
  intro a drawn
  obtain ⟨⟨u, b⟩, listed, rfl⟩ := List.mem_map.mp drawn
  have fits := t.fits_plan (Nat.le_max_left 1 t.horizon) (Nat.le_max_right 1 t.horizon)
  obtain ⟨i, rfl⟩ := Int.le.dest (Plan.within_of_fits fits listed).1
  have chosen : t.choices[i]?.join = some b := by
    rw [← Timeline.choiceAt_plan]
    exact (Plan.choiceAt_eq_some_iff fits).mpr listed
  have found : t.choices[i]? = some (some b) := Option.join_eq_some_iff.mp chosen
  have before : i < t.states.length := by
    have within := (List.getElem?_eq_some_iff.mp found).1
    rw [t.fits] at within
    omega
  exact (unfolds.next i _ _ (List.getElem?_eq_getElem before) found).1.1

/--
If the initial state of a problem passes the check of states, extracting a plan
and carrying it out undo each other: a plan that is carried out is the plan of
its timeline, which unfolds if the plan draws on the schema, and every timeline
of the problem that unfolds is what its plan is carried out to, provided that the
initial state is one of the schema.  The steps of the plan of any timeline
ascend, and every step before the horizon is one of them or else an idle one.
-/
theorem simulate_inverts_plan {objects : List DomainObject} {declared : List CategoryDeclaration}
    (built : Schema.build objects declared = .ok problem.schema) {at? : Value} {cause : Choice}
    (passes : problem.schema.verify problem.initial at? cause = .ok ()) :
    (∀ plan t, problem.simulate plan = .ok t → t.plan = plan ∧ t.horizon = problem.horizon ∧
        (plan.DrawsOn problem.schema → t.Unfolds problem.schema problem.initial)) ∧
      (∀ t, t.horizon = problem.horizon → t.Unfolds problem.schema problem.initial →
        t.plan.DrawsOn problem.schema ∧
          (problem.initial.scope = problem.schema.scope → problem.simulate t.plan = .ok t)) ∧
      ∀ t : Timeline, t.plan.steps.Pairwise (fun e f => e.1 < f.1) ∧
        (t.plan.steps.map Prod.fst ++ t.idleSteps.map Nat.cast).Perm
          ((List.range' 1 (t.horizon - 1)).map Nat.cast) := by
  refine ⟨fun plan t simulated => ⟨plan_of_simulate simulated, horizon_of_simulate simulated,
    fun known => unfolds_of_simulate known simulated⟩, fun t long unfolds =>
    ⟨drawsOn_of_unfolds unfolds, fun sameScope => ?_⟩, fun t => ⟨?_, ?_⟩⟩
  · have accepted := Schema.accepted_of_build built
    have sane := (Schema.verify_eq_ok_iff accepted sameScope _ _).mp passes
    have smooth : problem.schema.Smooth true problem.initial :=
      accepted.smooth (fun _ => ⟨sameScope, sane⟩)
    exact simulate_of_unfolds smooth long unfolds
  · exact Plan.ascending_of_fits
      (t.fits_plan (Nat.le_max_left 1 t.horizon) (Nat.le_max_right 1 t.horizon))
  · have steps := Timeline.perm_steps 1 t.choices
    rwa [t.fits] at steps

/-- The disc is lifted at the second step, and nothing else is done. -/
def loneDiscLifted : Plan := ⟨[(2, Search.loneDiscLift)]⟩

theorem simulate_inverts_plan_loneDisc :
    ∃ t, Branching.loneDiscProblem.simulate loneDiscLifted = .ok t ∧ t.plan = loneDiscLifted ∧
      t.Unfolds Search.loneDisc Search.loneDiscStart := by
  obtain ⟨extracts, carries, -⟩ := @simulate_inverts_plan Branching.loneDiscProblem _ _
    Search.build_loneDisc _ _ (Search.unhindered_loneDisc.verified rfl).2
  have trail : Search.loneDisc.Trail Search.loneDiscStart
      ((none, Search.loneDiscStart) ::
        (some Search.loneDiscLift, Search.loneDiscStart.after Search.loneDiscLift) ::
          List.replicate 2 (none, Search.loneDiscStart.after Search.loneDiscLift)) _ :=
    .cons trivial (.cons ⟨by decide, by decide⟩ (.idle _ _ 2))
  obtain ⟨known, carried⟩ := carries _ rfl trail.unfolds
  have simulated := carried rfl
  obtain ⟨same, -, unfolds⟩ := extracts loneDiscLifted _ simulated
  exact ⟨_, simulated, same, unfolds known⟩

end Problem

end StackingPlanner
