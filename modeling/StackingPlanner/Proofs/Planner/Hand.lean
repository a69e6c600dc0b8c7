import StackingPlanner.Proofs.Planner.Complete
import StackingPlanner.Proofs.Schema.Grounding

/-!
# Taking and placing take turns

The hand is empty or holds one object.  With an empty hand objects can only be
taken, and with an object in it only that object can be placed.  An action
leaves the hand as the next one must find it, so on every walk the actions that
take an object and those that place it again take turns.
-/

namespace StackingPlanner

namespace Action

def Takes (a : Action) (x : String) : Prop :=
  (a.operator = "pick_up" ∨ a.operator = "unstack") ∧ a.args.head? = some x

def Places (a : Action) (x : String) : Prop :=
  (a.operator = "put_down" ∨ a.operator = "stack") ∧ a.args.head? = some x

/-- What an action makes of the hand: of an empty one a full one, or the other way round. -/
inductive Handles (a : Action) : Option String → Option String → Prop where
  | take {x : String} (takes : a.Takes x) : Handles a none (some x)
  | place {x : String} (places : a.Places x) : Handles a (some x) none

/-- One action may follow another: it places what that took, or it takes after that placed. -/
def MayPrecede (a b : Action) : Prop :=
  (∃ x, a.Takes x ∧ b.Places x) ∨ ((∃ x, a.Places x) ∧ ∃ y, b.Takes y)

theorem Handles.mayPrecede {a b : Action} {before between after : Option String}
    (first : a.Handles before between) (second : b.Handles between after) : a.MayPrecede b := by
  cases first with
  | take takes =>
      cases second with
      | place places => exact .inl ⟨_, takes, places⟩
  | place places =>
      cases second with
      | take takes => exact .inr ⟨⟨_, places⟩, _, takes⟩

end Action

namespace Operator

variable {op : Operator} {x y : Member}

theorem takes_ground (takes : op.places = false) : (op.ground x y).Takes x.name := by
  cases op with
  | pickUp => exact ⟨.inl rfl, rfl⟩
  | unstack => exact ⟨.inr rfl, rfl⟩
  | putDown => cases takes
  | stack => cases takes

theorem places_ground (places : op.places = true) : (op.ground x y).Places x.name := by
  cases op with
  | pickUp => cases places
  | unstack => cases places
  | putDown => exact ⟨.inl rfl, rfl⟩
  | stack => exact ⟨.inr rfl, rfl⟩

end Operator

/-- What the hand holds in a state: nothing, and then it is empty, or one object. -/
def State.HandHolds (s : State) : Option String → Prop
  | none => .handEmpty ∈ s.facts ∧ ∀ x, ¬ s.IsHeld x
  | some x => .handEmpty ∉ s.facts ∧ ∀ y, s.IsHeld y ↔ y = x

inductive Handled : Option String → List Action → Option String → Prop where
  | nil (h : Option String) : Handled h [] h
  | cons {a : Action} {actions : List Action} {h i j : Option String}
      (handles : a.Handles h i) (rest : Handled i actions j) : Handled h (a :: actions) j

namespace Handled

variable {actions : List Action} {h j : Option String}

/-- Of two actions in a row the second is what the first calls for. -/
theorem isChain (handled : Handled h actions j) : actions.IsChain Action.MayPrecede := by
  induction handled with
  | nil => exact .nil
  | cons handles rest ih =>
      cases rest with
      | nil => exact .singleton _
      | cons next _ => exact .cons_cons (handles.mayPrecede next) ih

theorem handles_head (handled : Handled h actions j) : ∀ a ∈ actions.head?, ∃ i, a.Handles h i := by
  cases handled with
  | nil => exact fun a none => by cases none
  | cons handles _ =>
      intro a first
      cases first
      exact ⟨_, handles⟩

end Handled

namespace Schema

variable {schema : Schema} {s t : State}

theorem Sane.exists_handHolds (sane : schema.Sane s) : ∃ h, s.HandHolds h := by
  by_cases empty : .handEmpty ∈ s.facts
  · exact ⟨none, empty, sane.hand.mp empty⟩
  · have held : ∃ x, s.IsHeld x := by
      by_contra nothing
      exact empty (sane.hand.mpr (not_exists.mp nothing))
    obtain ⟨x, held⟩ := held
    refine ⟨some x, empty, fun y => ⟨fun other => sane.oneHeld y x other held, ?_⟩⟩
    rintro rfl
    exact held

/-- An action that can be made finds the hand as it needs it. -/
theorem Accepted.exists_handles (accepted : schema.Accepted) {a : Action}
    (allowed : schema.Allows s (some a)) {h : Option String} (holds : s.HandHolds h) :
    ∃ i, a.Handles h i ∧ (s.after (some a)).HandHolds i := by
  obtain ⟨known, executable⟩ := allowed
  obtain ⟨op, x, y, -, -, -, -, rfl⟩ := accepted.exists_ground known
  cases places : op.places with
  | false =>
      have empty := ((Operator.isExecutable_take_iff places).mp executable).2.1
      have taking : Taking x y s _ := taking_of_ground places
      cases h with
      | some z => exact absurd empty holds.1
      | none =>
          refine ⟨some x.name, .take (Operator.takes_ground places), taking.handEmpty, fun z => ?_⟩
          rw [State.IsHeld, taking.holding_iff]
          exact or_iff_left (holds.2 z)
  | true =>
      have held := ((Operator.isExecutable_place_iff places).mp executable).1
      have placing : Placing x y s _ := placing_of_ground places
      cases h with
      | none => exact absurd held (holds.2 x.name)
      | some z =>
          cases (holds.2 x.name).mp held
          refine ⟨none, .place (Operator.places_ground places), placing.handEmpty, fun w => ?_⟩
          rw [State.IsHeld, placing.holding_iff]
          exact fun other => other.2 ((holds.2 w).mp other.1)

/-- On a walk each action leaves the hand as the next one needs it. -/
theorem Accepted.exists_handled (accepted : schema.Accepted) {choices : List Choice}
    (walk : schema.Walk s choices t) {h : Option String} (holds : s.HandHolds h) :
    ∃ i, Handled h (choices.filterMap id) i ∧ t.HandHolds i := by
  induction walk generalizing h with
  | nil => exact ⟨h, .nil h, holds⟩
  | @cons s last choice choices allowed _ ih =>
      cases choice with
      | none => exact ih holds
      | some a =>
          obtain ⟨i, handles, between⟩ := accepted.exists_handles allowed holds
          obtain ⟨j, handled, after⟩ := ih between
          exact ⟨j, .cons handles handled, after⟩

end Schema

namespace Description

/--
On every walk from the initial state of a problem, objects can only be taken
while the hand is empty, and otherwise only the one held object can be placed.
So the actions take and place in turns, each placing what the one before it took;
the first one may place what was held initially.
-/
theorem takes_and_places_in_turn {d : Description} {problem : Problem}
    (states : d.problem = .ok problem) {choices : List Choice} {t : State}
    (walk : problem.schema.Walk problem.initial choices t) :
    (.handEmpty ∈ t.facts →
        ∀ a, problem.schema.Allows t (some a) → ∃ x, a.Takes x) ∧
      (.handEmpty ∉ t.facts →
        ∃ x, (∀ y, t.IsHeld y ↔ y = x) ∧ ∀ a, problem.schema.Allows t (some a) → a.Places x) ∧
      (choices.filterMap id).IsChain Action.MayPrecede ∧
      ∀ a ∈ (choices.filterMap id).head?,
        (∃ x, a.Takes x) ∨ ∃ x, problem.initial.IsHeld x ∧ a.Places x := by
  obtain ⟨accepted, -, start⟩ := sane_of_problem states
  obtain ⟨h, held⟩ := start.exists_handHolds
  obtain ⟨i, handled, holds⟩ := accepted.exists_handled walk held
  refine ⟨fun empty a allowed => ?_, fun full => ?_, handled.isChain, fun a first => ?_⟩
  · cases i with
    | some x => exact absurd empty holds.1
    | none =>
        obtain ⟨_, handles, -⟩ := accepted.exists_handles allowed holds
        cases handles with
        | take takes => exact ⟨_, takes⟩
  · cases i with
    | none => exact absurd holds.1 full
    | some x =>
        refine ⟨x, holds.2, fun a allowed => ?_⟩
        obtain ⟨_, handles, -⟩ := accepted.exists_handles allowed holds
        cases handles with
        | place places => exact places
  · obtain ⟨_, handles⟩ := handled.handles_head a first
    cases handles with
    | take takes => exact .inl ⟨_, takes⟩
    | place places => exact .inr ⟨_, (held.2 _).mpr rfl, places⟩

/-- On its detour the disc is taken, placed, taken again and placed again. -/
theorem takes_and_places_in_turn_loneDisc :
    ∃ t, Search.loneDisc.Walk Search.loneDiscStart (Planner.loneDiscDetour.actions.map some) t ∧
      Planner.loneDiscDetour.actions.IsChain Action.MayPrecede := by
  have walk : Search.loneDisc.Walk Search.loneDiscStart
      (Planner.loneDiscDetour.actions.map some) _ :=
    .cons ⟨by decide, by decide⟩ (.cons ⟨by decide, by decide⟩
      (.cons ⟨by decide, by decide⟩ (.cons ⟨by decide, by decide⟩ (.nil _))))
  obtain ⟨-, -, chain, -⟩ :=
    takes_and_places_in_turn Planner.problem_loneDiscDescription walk
  exact ⟨_, walk, chain⟩

end Description

end StackingPlanner
