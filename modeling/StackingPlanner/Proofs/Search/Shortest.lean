import Mathlib.Order.Bounds.Basic
import StackingPlanner.Proofs.Search.Correct

/-!
# The plan of a search is shortest and late

The plain search tries nothing first, so it acts only when it has to: its
actions fill the last steps, there are as few of them as possible, and among
the plans of that length theirs is the first one in the order of the actions.
-/

namespace StackingPlanner

namespace Schema

/-- Actions that lead from a state to the goal, one after another. -/
def Plans (schema : Schema) (goal : List Literal) (s : State) (actions : List Action) : Prop :=
  ∃ last, schema.Walk s (actions.map some) last ∧ last.satisfies goal = true

namespace Plans

variable {schema : Schema} {goal : List Literal} {s t : State} {actions : List Action}

theorem nil_iff : schema.Plans goal s [] ↔ s.satisfies goal = true := by
  constructor
  · rintro ⟨last, walk, holds⟩
    cases walk
    exact holds
  · intro holds
    exact ⟨s, .nil s, holds⟩

theorem cons_iff {a : Action} : schema.Plans goal s (a :: actions) ↔
    schema.Allows s (some a) ∧ schema.Plans goal (s.after (some a)) actions := by
  constructor
  · rintro ⟨last, walk, holds⟩
    cases walk with
    | cons allowed rest => exact ⟨allowed, last, rest, holds⟩
  · rintro ⟨allowed, last, rest, holds⟩
    exact ⟨last, .cons allowed rest, holds⟩

theorem congr (plans : schema.Plans goal s actions) (same : s.facts = t.facts) :
    schema.Plans goal t actions := by
  obtain ⟨last, walk, holds⟩ := plans
  obtain ⟨other, sameWalk, sameLast⟩ := walk.congr same
  exact ⟨other, sameWalk, State.satisfies_congr sameLast goal ▸ holds⟩

theorem reaches (plans : schema.Plans goal s actions) {steps : Nat}
    (within : actions.length ≤ steps) : schema.Reaches goal s steps := by
  obtain ⟨last, walk, holds⟩ := plans
  have exact : schema.Reaches goal s actions.length :=
    ⟨actions.map some, last, List.length_map .., walk, holds⟩
  exact exact.mono within

end Plans

/-- Actions that lead to the goal, which no fewer actions do. -/
structure ShortestPlan (schema : Schema) (goal : List Literal) (s : State)
    (actions : List Action) : Prop where
  plans : schema.Plans goal s actions
  least : ∀ others, schema.Plans goal s others → actions.length ≤ others.length

/-- The shortest plan that comes first in the order of operators and arguments. -/
structure FirstPlan (schema : Schema) (goal : List Literal) (s : State) (actions : List Action) :
    Prop extends ShortestPlan schema goal s actions where
  first : ∀ others, schema.Plans goal s others → others.length = actions.length →
    actions = others ∨ actions.map Action.words < others.map Action.words

section FirstPlan

variable {schema : Schema} {goal : List Literal} {s : State}

theorem firstPlan_nil (holds : s.satisfies goal = true) : schema.FirstPlan goal s [] where
  plans := Plans.nil_iff.mpr holds
  least _ _ := Nat.zero_le _
  first _ _ length := .inl (List.length_eq_zero_iff.mp length).symm

/--
A first plan after the first action that the goal can be reached by in time is a
first plan, if the goal cannot be reached with a step less.
-/
theorem firstPlan_cons {a : Action} {actions : List Action} {earlier later : List Action}
    (ordered : (earlier ++ a :: later).Pairwise (fun a b => a.words < b.words))
    (complete : ∀ b, b ∈ earlier ++ a :: later ↔ schema.Allows s (some b))
    (late : ¬ schema.Reaches goal s actions.length)
    (failed : ∀ b ∈ earlier, ¬ schema.Reaches goal (s.after (some b)) actions.length)
    (onward : schema.FirstPlan goal (s.after (some a)) actions) :
    schema.FirstPlan goal s (a :: actions) := by
  have allowed : schema.Allows s (some a) := (complete a).mp (by simp)
  refine ⟨⟨?_, ?_⟩, ?_⟩
  · exact Plans.cons_iff.mpr ⟨allowed, onward.plans⟩
  · intro others plans
    by_contra shorter
    exact late (plans.reaches (Nat.le_of_lt_succ (Nat.lt_of_not_le shorter)))
  · intro others plans length
    cases others with
    | nil => cases length
    | cons b others =>
        obtain ⟨executable, rest⟩ := Plans.cons_iff.mp plans
        have count : others.length = actions.length := Nat.succ.inj length
        rcases List.mem_append.mp ((complete b).mpr executable) with before | here
        · exact absurd (rest.reaches (Nat.le_of_eq count)) (failed b before)
        · rcases List.mem_cons.mp here with rfl | after
          · rcases onward.first others rest count with rfl | below
            · exact .inl rfl
            · exact .inr (List.cons_lt_cons_self.mpr below)
          · have below : a.words < b.words :=
              (List.pairwise_cons.mp (List.pairwise_append.mp ordered).2.1).1 b after
            exact .inr (List.Lex.rel below)

/-- What the plain search finds is a first plan that fills the last steps. -/
theorem leftmost?_firstPlan (accepted : schema.Accepted) {steps : Nat} {found : Steps}
    (result : schema.leftmost? goal steps s = some found) :
    ∃ actions, schema.FirstPlan goal s actions ∧ actions.length ≤ steps ∧
      found.map (·.1) = List.replicate (steps - actions.length) none ++ actions.map some := by
  induction steps generalizing s found with
  | zero =>
      cases holds : s.satisfies goal with
      | true =>
          rw [leftmost?_of_goal holds] at result
          cases result
          exact ⟨[], firstPlan_nil holds, Nat.le_refl 0, rfl⟩
      | false =>
          rw [leftmost?_zero_of_not holds] at result
          cases result
  | succ steps ih =>
      cases holds : s.satisfies goal with
      | true =>
          rw [leftmost?_of_goal holds] at result
          cases result
          exact ⟨[], firstPlan_nil holds, Nat.zero_le _, by simp⟩
      | false =>
          rw [leftmost?_succ_of_not holds] at result
          obtain ⟨failed, choice, untried, rest, split, fails, taken, rfl⟩ :=
            tryEach_eq_some_iff.mp result
          cases failed with
          | nil =>
              -- Doing nothing succeeds, so that what follows is a plan from here.
              cases split
              obtain ⟨actions, firstPlan, within, choices⟩ := ih taken
              refine ⟨actions, firstPlan, Nat.le_succ_of_le within, ?_⟩
              rw [Nat.succ_sub within, List.replicate_succ, List.cons_append, ← choices]
              rfl
          | cons idle failed =>
              -- Doing nothing fails, so that no plan is shorter than the steps that are left.
              obtain ⟨rfl, executable⟩ := List.cons.inj split
              have late : ¬ schema.Reaches goal s steps :=
                leftmost?_eq_none_iff.mp (fails none List.mem_cons_self)
              obtain ⟨earlier, others, listed, rfl, same⟩ := List.map_eq_append_iff.mp executable
              obtain ⟨a, later, rfl, rfl, rfl⟩ := List.map_eq_cons_iff.mp same
              obtain ⟨actions, firstPlan, within, choices⟩ := ih taken
              have complete : ∀ b, b ∈ earlier ++ a :: later ↔ schema.Allows s (some b) := by
                intro b
                rw [← listed]
                exact List.mem_filter
              have allowed : schema.Allows s (some a) := (complete a).mp (by simp)
              have count : actions.length = steps := by
                by_contra fewer
                have plans := Plans.cons_iff.mpr ⟨allowed, firstPlan.plans⟩
                exact late (plans.reaches (Nat.succ_le_of_lt (Nat.lt_of_le_of_ne within fewer)))
              subst count
              refine ⟨a :: actions, ?_, Nat.le_refl _, ?_⟩
              · refine firstPlan_cons ?_ complete late ?_ firstPlan
                · rw [← listed]
                  exact accepted.actions_pairwise.sublist List.filter_sublist
                · intro b member
                  have among : some b ∈ none :: earlier.map some :=
                    List.mem_cons_of_mem _ (List.mem_map_of_mem member)
                  exact leftmost?_eq_none_iff.mp (fails (some b) among)
              · rw [List.map_cons, choices, Nat.sub_self, List.length_cons, Nat.sub_self]
                rfl

end FirstPlan

end Schema

namespace State

/-- The states on the way of choices, the first and the last one included. -/
def trace : State → List Choice → List State
  | s, [] => [s]
  | s, choice :: choices => s :: trace (s.after choice) choices

theorem trace_idle (s : State) (count : Nat) (choices : List Choice) :
    s.trace (List.replicate count none ++ choices) = List.replicate count s ++ s.trace choices := by
  induction count with
  | zero => rfl
  | succ count ih =>
      rw [List.replicate_succ, List.cons_append, trace, after_none, ih]
      rfl

end State

namespace Schema

variable {schema : Schema} {goal : List Literal} {s : State}

theorem Play.states {steps : Steps} (play : schema.Play goal s steps) :
    (Timeline.ofSteps s steps).states = s.trace (steps.map (·.1)) := by
  induction play with
  | @rest s _ count =>
      have choices : (List.replicate count ((none : Choice), s)).map (·.1) =
          List.replicate count none ++ [] := by
        simp
      rw [choices, State.trace_idle]
      simp [Timeline.ofSteps, State.trace, ← List.replicate_succ, List.replicate_succ']
  | @move s choice steps _ _ _ ih =>
      change s :: (Timeline.ofSteps (s.after choice) steps).states = _
      rw [ih]
      rfl

/-- On the way of a shortest plan each state has a plan that is no longer than what is left. -/
theorem Plans.of_mem_trace {actions : List Action} (plans : schema.Plans goal s actions)
    {t : State} (passed : t ∈ s.trace (actions.map some)) :
    ∃ others, schema.Plans goal t others ∧ others.length ≤ actions.length := by
  induction actions generalizing s with
  | nil =>
      cases List.mem_singleton.mp passed
      exact ⟨[], plans, Nat.le_refl _⟩
  | cons a actions ih =>
      rcases List.mem_cons.mp passed with rfl | later
      · exact ⟨a :: actions, plans, Nat.le_refl _⟩
      · obtain ⟨others, onward, fewer⟩ := ih (Plans.cons_iff.mp plans).2 later
        exact ⟨others, onward, Nat.le_succ_of_le fewer⟩

namespace ShortestPlan

variable {a : Action} {actions : List Action}

theorem tail (shortest : schema.ShortestPlan goal s (a :: actions)) :
    schema.ShortestPlan goal (s.after (some a)) actions := by
  obtain ⟨allowed, onward⟩ := Plans.cons_iff.mp shortest.plans
  refine ⟨onward, fun others plans => ?_⟩
  have whole := shortest.least (a :: others) (Plans.cons_iff.mpr ⟨allowed, plans⟩)
  exact Nat.le_of_succ_le_succ whole

/-- No state on the way of a shortest plan has the facts of an earlier one. -/
theorem facts_nodup (shortest : schema.ShortestPlan goal s actions) :
    ((s.trace (actions.map some)).map (·.facts)).Nodup := by
  induction actions generalizing s with
  | nil => exact List.pairwise_singleton _ _
  | cons a actions ih =>
      refine List.nodup_cons.mpr ⟨?_, ih shortest.tail⟩
      intro again
      obtain ⟨t, passed, same⟩ := List.mem_map.mp again
      obtain ⟨others, plans, fewer⟩ := shortest.tail.plans.of_mem_trace passed
      -- From the later state the goal is nearer, and so it would be from the earlier one.
      have further := shortest.least others (plans.congr same)
      exact Nat.not_succ_le_self _ (Nat.le_trans further fewer)

theorem unmet (shortest : schema.ShortestPlan goal s (a :: actions)) :
    s.satisfies goal = false := by
  rw [← Bool.not_eq_true]
  intro holds
  exact Nat.not_succ_le_zero _ (shortest.least [] (Plans.nil_iff.mpr holds))

theorem findIdx?_goal (shortest : schema.ShortestPlan goal s actions) :
    (s.trace (actions.map some)).findIdx? (·.satisfies goal) = some actions.length := by
  induction actions generalizing s with
  | nil =>
      have holds := Plans.nil_iff.mp shortest.plans
      simp [State.trace, holds]
  | cons a actions ih =>
      rw [List.map_cons, State.trace, List.findIdx?_cons, shortest.unmet, ih shortest.tail]
      rfl

/-- When nothing is done before a plan with actions, the goal first holds that much later. -/
theorem findIdx?_goal_idle (shortest : schema.ShortestPlan goal s actions) (count : Nat) :
    (List.replicate count s ++ s.trace (actions.map some)).findIdx? (·.satisfies goal) =
      some (if actions.length = 0 then 0 else count + actions.length) := by
  cases actions with
  | nil =>
      have holds := Plans.nil_iff.mp shortest.plans
      cases count <;> simp [State.trace, List.replicate_succ, List.findIdx?_cons, holds]
  | cons a actions =>
      rw [List.length_cons, if_neg (Nat.add_one_ne_zero _)]
      induction count with
      | zero =>
          rw [List.replicate_zero, List.nil_append, findIdx?_goal shortest, Nat.zero_add,
            List.length_cons]
      | succ count ih =>
          rw [List.replicate_succ, List.cons_append, List.findIdx?_cons, shortest.unmet, ih,
            Nat.succ_add]
          rfl

end ShortestPlan

end Schema

namespace Search

variable {schema : Schema} {settings : SearchSettings} {initial : State} {startStep horizon : Int}
  {meter : Meter}

/--
What an unhindered search finds is a plan with the least number of actions, they
are made one after another in the last steps, and among the plans with that
number of actions it comes first.  The goal first holds at the horizon, unless
it holds at once, and once actions are made no state comes up twice.
-/
theorem run_shortest (free : Unhindered schema settings initial startStep meter)
    (goal : OrderedSet Literal) (first : 1 ≤ startStep) (order : startStep ≤ horizon)
    {outcome : Outcome} {timeline : Timeline}
    (finished : (Search.run schema settings initial goal horizon startStep meter).1 = .ok outcome)
    (success : outcome.verdict = .success timeline) :
    ∃ actions : List Action,
      schema.Plans goal.toList initial actions ∧
      IsLeast {count | ∃ others, schema.Plans goal.toList initial others ∧ others.length = count}
        actions.length ∧
      (actions.length : Int) ≤ horizon - startStep ∧
      timeline.choices =
        List.replicate ((horizon - startStep).toNat - actions.length) none ++ actions.map some ∧
      (∀ others, schema.Plans goal.toList initial others → others.length = actions.length →
        actions = others ∨ actions.map Action.words < others.map Action.words) ∧
      (timeline.states.findIdx? (·.satisfies goal.toList)).map (fun i : Nat => startStep + i) =
        some (if actions.length = 0 then startStep else horizon) ∧
      ((timeline.states.drop ((horizon - startStep).toNat - actions.length)).map
        (·.facts)).Nodup := by
  have verdict := (free.run free.room.roomy goal first order).1
  rw [finished] at verdict
  have same := success.symm.trans (Except.ok.inj verdict)
  cases found : schema.leftmost? goal.toList (horizon - startStep).toNat initial with
  | none =>
      rw [found] at same
      cases same
  | some steps =>
      rw [found] at same
      cases same
      obtain ⟨actions, plan, within, choices⟩ :=
        Schema.leftmost?_firstPlan free.accepted found
      have states : (Timeline.ofSteps initial steps).states =
          List.replicate ((horizon - startStep).toNat - actions.length) initial ++
            initial.trace (actions.map some) := by
        rw [(Schema.leftmost?_play found).1.states, choices, State.trace_idle]
      refine ⟨actions, plan.plans, ⟨⟨actions, plan.plans, rfl⟩, ?_⟩, by omega, choices, plan.first,
        ?_, ?_⟩
      · rintro count ⟨others, plans, rfl⟩
        exact plan.least others plans
      · rw [states, plan.toShortestPlan.findIdx?_goal_idle]
        by_cases none : actions.length = 0
        · rw [if_pos none, if_pos none, Option.map_some, Int.natCast_zero, Int.add_zero]
        · rw [if_neg none, if_neg none, Option.map_some, Option.some.injEq]
          omega
      · rw [states, List.drop_left' List.length_replicate]
        exact plan.toShortestPlan.facts_nodup

theorem run_shortest_loneDisc :
    ∃ outcome timeline,
      (Search.run loneDisc {} loneDiscStart loneDiscGoal 5 1 (Meter.fresh {} .still)).1 =
        .ok outcome ∧
      outcome.verdict = .success timeline ∧
      ∃ actions : List Action, loneDisc.Plans loneDiscGoal.toList loneDiscStart actions ∧
        timeline.choices = List.replicate (4 - actions.length) none ++ actions.map some := by
  have reachable : (loneDisc.leftmost? loneDiscGoal.toList 4 loneDiscStart).isSome = true := by
    decide +kernel
  obtain ⟨steps, found⟩ := Option.isSome_iff_exists.mp reachable
  have verdict := (unhindered_loneDisc.run unhindered_loneDisc.room.roomy loneDiscGoal
    (by decide : (1 : Int) ≤ 1) (by decide : (1 : Int) ≤ 5)).1
  obtain ⟨outcome, finished, same⟩ := Except.exists_of_map_eq_ok verdict
  have success : outcome.verdict = .success (Timeline.ofSteps loneDiscStart steps) :=
    same.trans (congrArg (Verdict.ofSteps? loneDiscStart) found)
  obtain ⟨actions, plans, _, _, choices, _⟩ :=
    run_shortest unhindered_loneDisc loneDiscGoal (by decide) (by decide) finished success
  exact ⟨outcome, _, finished, success, actions, plans, choices⟩

end Search

end StackingPlanner
