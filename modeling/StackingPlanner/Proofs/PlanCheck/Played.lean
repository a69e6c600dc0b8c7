import StackingPlanner.PlanCheck
import StackingPlanner.Proofs.Trail

/-!
# Plans of plays

A plan lists the actions of a timeline without the steps at which nothing is
done.  When the timeline follows a play, the diagnosis of the plan finds no
fault, and carrying the plan out by its step numbers gives the timeline back.
The goal first holds one step after the last action.
-/

namespace StackingPlanner

namespace Plan

/-- The actions among choices, with their steps, the first of which is given. -/
def stepsFrom (first : Nat) (choices : List Choice) : List (Int × Action) :=
  (choices.zipIdx first).filterMap
    (fun entry => entry.1.map (fun action => ((entry.2 : Int), action)))

def later (more : Nat) (entry : Int × Action) : Int × Action := (entry.1 + more, entry.2)

def delayed (p : Plan) (more : Nat) : Plan := ⟨p.steps.map (later more)⟩

/-- The step after the last of some steps; a given one if there is none. -/
def stepAfter (first : Int) (steps : List (Int × Action)) : Int :=
  match steps.getLast? with
  | none => first
  | some last => last.1 + 1

@[simp]
theorem stepAfter_nil (first : Int) : stepAfter first [] = first := rfl

theorem stepAfter_cons (first : Int) (entry : Int × Action) (steps : List (Int × Action)) :
    stepAfter first (entry :: steps) = stepAfter (entry.1 + 1) steps := by
  cases steps with
  | nil => rfl
  | cons next steps =>
      rw [stepAfter, stepAfter, List.getLast?_cons_cons,
        List.getLast?_eq_some_getLast (List.cons_ne_nil next steps)]

theorem stepAfter_of_ne_nil {steps : List (Int × Action)} (acts : steps ≠ [])
    (first other : Int) : stepAfter first steps = stepAfter other steps := by
  cases steps with
  | nil => cases acts rfl
  | cons entry steps => rw [stepAfter_cons, stepAfter_cons]

section Steps

variable {first : Nat} {choices : List Choice}

@[simp]
theorem stepsFrom_cons_none :
    stepsFrom first (none :: choices) = stepsFrom (first + 1) choices := rfl

@[simp]
theorem stepsFrom_cons_some {a : Action} :
    stepsFrom first (some a :: choices) = ((first : Int), a) :: stepsFrom (first + 1) choices :=
  rfl

@[simp]
theorem stepsFrom_replicate_none {count : Nat} :
    stepsFrom first (List.replicate count none) = [] := by
  induction count generalizing first with
  | zero => rfl
  | succ count ih => exact ih

/-- Where nothing is done at first, the steps of the actions are counted from later on. -/
theorem stepsFrom_replicate_append (count : Nat) :
    stepsFrom first (List.replicate count none ++ choices) = stepsFrom (first + count) choices := by
  induction count generalizing first with
  | zero => rfl
  | succ count ih =>
      rw [List.replicate_succ, List.cons_append, stepsFrom_cons_none, ih, Nat.add_right_comm,
        Nat.add_assoc]

theorem stepsFrom_add (more : Nat) :
    stepsFrom (first + more) choices = (stepsFrom first choices).map (later more) := by
  induction choices generalizing first with
  | nil => rfl
  | cons choice choices ih =>
      have others : stepsFrom (first + more + 1) choices =
          (stepsFrom (first + 1) choices).map (later more) := by
        rw [Nat.add_right_comm]
        exact ih
      cases choice with
      | none => exact others
      | some a =>
          rw [stepsFrom_cons_some, stepsFrom_cons_some, List.map_cons, others, later,
            Int.natCast_add]

theorem first_le_of_mem_stepsFrom {entry : Int × Action}
    (member : entry ∈ stepsFrom first choices) : first ≤ entry.1 := by
  induction choices generalizing first with
  | nil => cases member
  | cons choice choices ih =>
      cases choice with
      | none =>
          have later := ih (stepsFrom_cons_none ▸ member)
          omega
      | some a =>
          rcases List.mem_cons.mp member with rfl | member
          · exact Int.le_refl _
          · have later := ih member
            omega

/-- At each step a plan has the action that was chosen there, if there was one. -/
theorem find?_stepsFrom (first : Nat) (choices : List Choice) (i : Nat) :
    ((stepsFrom first choices).find? (·.1 = ((first + i : Nat) : Int))).map (·.2) =
      choices[i]?.join := by
  induction choices generalizing first i with
  | nil => rfl
  | cons choice choices ih =>
      cases i with
      | zero =>
          have later : (stepsFrom (first + 1) choices).find? (·.1 = ((first + 0 : Nat) : Int)) =
              none := by
            rw [List.find?_eq_none]
            intro entry member same
            have := first_le_of_mem_stepsFrom member
            have := of_decide_eq_true same
            omega
          cases choice with
          | none => rw [stepsFrom_cons_none, later]; rfl
          | some a => simp
      | succ i =>
          have shift : first + (i + 1) = first + 1 + i := by omega
          rw [shift, List.getElem?_cons_succ, ← ih (first + 1) i]
          cases choice with
          | none => rw [stepsFrom_cons_none]
          | some a =>
              rw [stepsFrom_cons_some, List.find?_cons_of_neg]
              simp
              omega

theorem checkSteps_stepsFrom {horizon : Nat} {previous : Int} (above : previous < first)
    (within : first + choices.length ≤ horizon) :
    checkSteps horizon previous (stepsFrom first choices) = none := by
  induction choices generalizing first previous with
  | nil => rfl
  | cons choice choices ih =>
      rw [List.length_cons] at within
      cases choice with
      | none =>
          rw [stepsFrom_cons_none]
          exact ih (by omega) (by omega)
      | some a =>
          rw [stepsFrom_cons_some, checkSteps, if_neg (by omega), if_neg (by omega)]
          exact ih (by omega) (by omega)

end Steps

end Plan

theorem Timeline.choiceAt_plan (t : Timeline) (i : Nat) :
    t.plan.choiceAt (1 + i) = t.choices[i]?.join := by
  have step : (1 + i : Int) = ((1 + i : Nat) : Int) := by omega
  rw [step]
  exact Plan.find?_stepsFrom 1 t.choices i

/-- The steps of a timeline fit every horizon that is no shorter. -/
theorem Timeline.fits_plan (t : Timeline) {horizon : Nat} (positive : 1 ≤ horizon)
    (within : t.horizon ≤ horizon) : t.plan.stepFault? horizon = none := by
  refine Plan.checkSteps_stepsFrom (by decide) ?_
  rw [t.fits]
  unfold Timeline.horizon at within
  omega

namespace Problem

variable {problem : Problem} {s : State} {steps : Steps}

/-- The actions of a play pass a diagnosis that begins where the play begins. -/
theorem diagnoseSteps_play (play : problem.schema.Play problem.goal.toList s steps) (first : Nat)
    (held : Int) :
    problem.diagnoseSteps s (if problem.isGoal s then some held else none)
      (Plan.stepsFrom first (steps.map (·.1))) = none := by
  induction play generalizing first held with
  | @rest s holds count =>
      have met : problem.isGoal s = true := holds
      rw [if_pos met, List.map_replicate, Plan.stepsFrom_replicate_none]
      rfl
  | @move s choice steps unmet allowed onward ih =>
      cases choice with
      | none => exact ih (first + 1) held
      | some a =>
          have open_ : ¬ problem.isGoal s = true := ne_true_of_eq_false unmet
          have executable : a.isExecutable s = true := allowed.2
          rw [if_neg open_, List.map_cons, Plan.stepsFrom_cons_some, diagnoseSteps,
            if_pos executable]
          exact ih (first + 1) _

/-- The goal first holds one step after the last action of a play. -/
theorem findIdx?_play {goal : List Literal} {schema : Schema} (play : schema.Play goal s steps)
    (first : Nat) :
    ((s :: steps.map (·.2)).findIdx? (·.satisfies goal)).map (fun i : Nat => (first : Int) + i) =
      some (Plan.stepAfter first (Plan.stepsFrom first (steps.map (·.1)))) := by
  induction play generalizing first with
  | @rest s holds count =>
      rw [List.map_replicate, List.map_replicate, Plan.stepsFrom_replicate_none,
        List.findIdx?_cons, if_pos holds]
      simp
  | @move s choice steps unmet allowed onward ih =>
      obtain ⟨i, found, last⟩ := Option.map_eq_some_iff.mp (ih (first + 1))
      have next : (s :: s.after choice :: steps.map (·.2)).findIdx? (·.satisfies goal) =
          some (i + 1) := by
        rw [List.findIdx?_cons, unmet, found]
        rfl
      rw [List.map_cons, List.map_cons, next, Option.map_some, Option.some.injEq]
      rw [Int.natCast_add, Int.natCast_one] at last
      cases choice with
      | some a =>
          rw [Plan.stepsFrom_cons_some, Plan.stepAfter_cons, ← last]
          omega
      | none =>
          rw [Plan.stepsFrom_cons_none]
          have acts : Plan.stepsFrom (first + 1) (steps.map (·.1)) ≠ [] := by
            intro idle
            have stays : s.after none = s := rfl
            rw [idle, Plan.stepAfter_nil] at last
            rw [stays, List.findIdx?_cons, unmet] at found
            obtain ⟨j, _, rfl⟩ := Option.map_eq_some_iff.mp found
            omega
          rw [Plan.stepAfter_of_ne_nil acts first (first + 1), ← last]
          omega

/-- Where no choice is refused, what is chosen along a trail is followed along it. -/
theorem follow_of_trail {last : State} (trail : problem.schema.Trail s steps last)
    (smooth : problem.schema.Smooth true s) {choiceAt : Int → Choice} {first : Int}
    (chosen : ∀ (i : Nat) (choice : Choice), (steps.map (·.1))[i]? = some choice →
      choiceAt (first + i) = choice) :
    problem.follow choiceAt s first steps.length = .ok steps := by
  induction trail generalizing first with
  | nil s => rfl
  | @cons s last choice steps allowed onward ih =>
      have here : choiceAt first = choice := by
        rw [← chosen 0 choice rfl, Int.natCast_zero, Int.add_zero]
      have rest : problem.follow choiceAt (s.after choice) (first + 1) steps.length =
          .ok steps := by
        refine ih (smooth.after allowed) (fun i other found => ?_)
        rw [← chosen (i + 1) other found]
        congr 1
        omega
      rw [List.length_cons, follow, here, smooth.advance allowed]
      simp only [bind, Except.bind, rest]
      rfl

/-- The plan of a trail of the length of a problem is carried out along the trail. -/
theorem simulate_of_trail {last : State}
    (trail : problem.schema.Trail problem.initial steps last)
    (smooth : problem.schema.Smooth true problem.initial)
    (long : steps.length = problem.horizon - 1) :
    problem.simulate (Timeline.ofSteps problem.initial steps).plan =
      .ok (Timeline.ofSteps problem.initial steps) := by
  have fits := (Timeline.ofSteps problem.initial steps).fits_plan problem.horizon_pos (by
    have positive := problem.horizon_pos
    rw [Timeline.horizon_ofSteps, long]
    omega)
  have followed : problem.follow (Timeline.ofSteps problem.initial steps).plan.choiceAt
      problem.initial 1 steps.length = .ok steps := by
    refine follow_of_trail trail smooth (fun i choice found => ?_)
    have listed : (Timeline.ofSteps problem.initial steps).choices[i]? = some choice := found
    rw [Timeline.choiceAt_plan, listed]
    rfl
  rw [simulate, fits, timelineOf, ← long, followed]
  rfl

/--
A problem confirms a timeline if the plan of the timeline has no fault, is
carried out to the same timeline, and reaches the goal after its last action,
or at the first step if it has none.
-/
structure Confirms (problem : Problem) (t : Timeline) : Prop where
  faultless : problem.diagnose t.plan = none
  simulated : problem.simulate t.plan = .ok t
  reached : (t.goalReachedAt problem.goal.toList).map (fun n : Nat => (n : Int)) =
    some (Plan.stepAfter 1 t.plan.steps)

/-- The checkers confirm a play of the length of a problem. -/
theorem confirms_of_play (smooth : problem.schema.Smooth true problem.initial)
    (play : problem.schema.Play problem.goal.toList problem.initial steps)
    (long : steps.length = problem.horizon - 1) :
    problem.Confirms (Timeline.ofSteps problem.initial steps) := by
  have fits := (Timeline.ofSteps problem.initial steps).fits_plan problem.horizon_pos (by
    have positive := problem.horizon_pos
    rw [Timeline.horizon_ofSteps, long]
    omega)
  constructor
  case faultless =>
    rw [diagnose, fits]
    exact diagnoseSteps_play play 1 1
  case simulated =>
    obtain ⟨last, trail, -⟩ := play.exists_trail
    exact simulate_of_trail trail smooth long
  case reached =>
    have found := findIdx?_play play 1
    rw [Timeline.goalReachedAt, Option.map_map]
    have shift : ((fun n : Nat => (n : Int)) ∘ (· + 1)) = fun i : Nat => ((1 : Nat) : Int) + i := by
      funext i
      simp
      omega
    rw [shift]
    exact found

end Problem

end StackingPlanner
