import StackingPlanner.Proofs.Schema.Positions

/-!
# Every move can be undone

What one operator takes from a support another one places there again, and the
other way round.  In a sane state the two leave every fluent as it was: where
the objects rest and what is held comes back, and a sane state is determined by
that.  So from every state that is reached from a sane one there is a way back.
-/

namespace StackingPlanner

namespace Operator

def opposite : Operator → Operator
  | pickUp => putDown
  | putDown => pickUp
  | stack => unstack
  | unstack => stack

@[simp]
theorem places_opposite (op : Operator) : op.opposite.places = !op.places := by
  cases op <;> rfl

@[simp]
theorem supportMovable_opposite (op : Operator) :
    op.opposite.supportMovable = op.supportMovable := by
  cases op <;> rfl

end Operator

/-- One action undoes another: its operator is the opposite one, on the same arguments. -/
def Action.Undoes (b a : Action) : Prop :=
  ∃ op : Operator, a.operator = op.name ∧ b.operator = op.opposite.name ∧ b.args = a.args

namespace Schema

variable {schema : Schema} {s t u : State}

theorem suits_opposite (op : Operator) (support : Member) :
    suits op.opposite support = suits op support := by
  rw [suits, suits, Operator.supportMovable_opposite]

section Moves

variable {x y : Member}

/-- An object that is placed on the support from which it was taken was not moved at all. -/
theorem Sane.facts_of_take_place (sane : schema.Sane s) (last : schema.Sane u)
    (accepted : schema.Accepted) (taking : Taking x y s t) (placing : Placing x y t u)
    (placed : .on x.name y.name ∈ s.facts) (free : .handEmpty ∈ s.facts) : u.facts = s.facts := by
  apply last.facts_eq sane accepted
  case sameOn =>
    intro a b
    rw [placing.on_iff, taking.on_iff]
    constructor
    · rintro (⟨rfl, rfl⟩ | ⟨before, _⟩)
      · exact placed
      · exact before
    · intro before
      by_cases moved : a = x.name ∧ b = y.name
      · exact .inl moved
      · exact .inr ⟨before, moved⟩
  case sameHeld =>
    intro a
    rw [placing.holding_iff, taking.holding_iff]
    constructor
    · rintro ⟨isObject | held, other⟩
      · exact absurd isObject other
      · exact held
    · intro held
      exact absurd held (sane.hand.mp free a)

/-- An object that is taken from the support on which it was placed is held as before. -/
theorem Sane.facts_of_place_take (sane : schema.Sane s) (last : schema.Sane u)
    (accepted : schema.Accepted) (placing : Placing x y s t) (taking : Taking x y t u)
    (held : .holding x.name ∈ s.facts) : u.facts = s.facts := by
  apply last.facts_eq sane accepted
  case sameOn =>
    intro a b
    rw [taking.on_iff, placing.on_iff]
    constructor
    · rintro ⟨moved | before, other⟩
      · exact absurd moved other
      · exact before
    · intro before
      refine ⟨.inr before, ?_⟩
      rintro ⟨rfl, rfl⟩
      exact sane.heldFree _ _ held before
  case sameHeld =>
    intro a
    rw [taking.holding_iff, placing.holding_iff]
    constructor
    · rintro (rfl | ⟨before, _⟩)
      · exact held
      · exact before
    · intro before
      exact .inl (sane.oneHeld _ _ before held)

/-- After an operator the one that undoes it can be applied to the same objects. -/
theorem isExecutable_opposite (op : Operator) (x y : Member) (s : State) :
    (op.opposite.ground x y).isExecutable (s.after (some (op.ground x y))) = true := by
  cases places : op.places with
  | false =>
      have taking : Taking x y s _ := taking_of_ground places
      apply (Operator.isExecutable_place_iff (by simp [places])).mpr
      constructor
      · exact (taking.holding_iff _).mpr (.inl rfl)
      · intro tracks
        exact (taking.clear_iff _).mpr (.inl ⟨tracks, rfl⟩)
  | true =>
      have placing : Placing x y s _ := placing_of_ground places
      apply (Operator.isExecutable_take_iff (by simp [places])).mpr
      refine ⟨(placing.on_iff _ _).mpr (.inl ⟨rfl, rfl⟩), placing.handEmpty, ?_⟩
      intro tracks
      exact (placing.clear_iff _).mpr (.inl ⟨tracks, rfl⟩)

end Moves

/-- Every action that can be made in a sane state can be undone after it. -/
theorem Sane.exists_undoing (sane : schema.Sane s) (accepted : schema.Accepted) {a : Action}
    (allowed : schema.Allows s (some a)) :
    ∃ b : Action, b.Undoes a ∧ schema.Allows (s.after (some a)) (some b) ∧
      (s.after (some a)).after (some b) = s := by
  have middle := sane.after accepted allowed
  obtain ⟨member, executable⟩ := allowed
  obtain ⟨op, x, y, hx, hy, may, suit, rfl⟩ := accepted.exists_ground member
  have known : op.opposite.ground x y ∈ schema.actions :=
    accepted.ground_mem_actions hx hy may ((suits_opposite op y).trans suit)
  have allowed : schema.Allows (s.after (some (op.ground x y))) (some (op.opposite.ground x y)) :=
    ⟨known, isExecutable_opposite op x y s⟩
  have last := middle.after accepted allowed
  refine ⟨op.opposite.ground x y, ⟨op, rfl, rfl, rfl⟩, allowed, ?_⟩
  apply State.eq_of_facts_eq
  · rw [State.after_scope, State.after_scope]
  · cases places : op.places with
    | false =>
        obtain ⟨placed, free, _⟩ := (Operator.isExecutable_take_iff places).mp executable
        exact sane.facts_of_take_place last accepted (taking_of_ground places)
          (placing_of_ground (by simp [places])) placed free
    | true =>
        obtain ⟨held, _⟩ := (Operator.isExecutable_place_iff places).mp executable
        exact sane.facts_of_place_take last accepted (placing_of_ground places)
          (taking_of_ground (by simp [places])) held

theorem Sane.exists_return (sane : schema.Sane s) (accepted : schema.Accepted) {choice : Choice}
    (allowed : schema.Allows s choice) :
    ∃ back, schema.Allows (s.after choice) back ∧ (s.after choice).after back = s := by
  cases choice with
  | none => exact ⟨none, trivial, rfl⟩
  | some a =>
      obtain ⟨b, _, allowed, returns⟩ := sane.exists_undoing accepted allowed
      exact ⟨some b, allowed, returns⟩

/-- The choices of a walk from a sane state can be undone one after another, the last one first. -/
theorem Sane.walk_back (sane : schema.Sane s) (accepted : schema.Accepted)
    {choices : List Choice} (walk : schema.Walk s choices t) :
    ∃ back, back.length = choices.length ∧ schema.Walk t back s := by
  induction walk with
  | nil s => exact ⟨[], rfl, .nil s⟩
  | cons allowed _ ih =>
      obtain ⟨back, length, walk⟩ := ih (sane.after accepted allowed)
      obtain ⟨last, allowed, returns⟩ := sane.exists_return accepted allowed
      refine ⟨back ++ [last], by simp [length], ?_⟩
      have whole := walk.snoc allowed
      rwa [returns] at whole

/--
In a state that passes the checks every executable action of the schema can be
undone: the opposite operator on the same objects is an action of the schema as
well, it is executable after that action, and it leads back to the same state.
So if one state that passes the checks can be reached from another, it is the
same the other way round, and it takes no more steps.
-/
theorem undoing_leads_back {objects : List DomainObject} {declared : List CategoryDeclaration}
    (built : Schema.build objects declared = .ok schema) (sameScope : s.scope = schema.scope)
    {step : Value} {action : Option Action} (passes : schema.verify s step action = .ok ()) :
    (∀ a ∈ schema.actions, a.isExecutable s = true →
        ∃ b ∈ schema.actions, b.Undoes a ∧ b.isExecutable (s.after (some a)) = true ∧
          (s.after (some a)).after (some b) = s) ∧
      ∀ choices t, schema.Walk s choices t →
        t.scope = schema.scope ∧ schema.verify t step action = .ok () ∧
          ∃ back, back.length = choices.length ∧ schema.Walk t back s := by
  have accepted := accepted_of_build built
  have sane := (verify_eq_ok_iff accepted sameScope step action).mp passes
  constructor
  · intro a member executable
    obtain ⟨b, undoes, ⟨known, possible⟩, returns⟩ :=
      sane.exists_undoing accepted ⟨member, executable⟩
    exact ⟨b, known, undoes, possible, returns⟩
  · intro choices t walk
    have sameScope : t.scope = schema.scope := walk.scope_eq.trans sameScope
    refine ⟨sameScope, ?_, sane.walk_back accepted walk⟩
    exact (verify_eq_ok_iff accepted sameScope step action).mpr (sane.walk accepted walk)

/-- The disc that was taken from the first peg can be put down there again. -/
theorem undoing_leads_back_loneDisc :
    Search.loneDiscLift ∈ Search.loneDisc.actions ∧
      Search.loneDiscLift.isExecutable Search.loneDiscStart = true ∧
      ∃ b ∈ Search.loneDisc.actions, b.name = "put_down(a,p)" ∧
        (Search.loneDiscStart.after Search.loneDiscLift).after b = Search.loneDiscStart := by
  have passes : Search.loneDisc.verify Search.loneDiscStart (.whole 1) none = .ok () := rfl
  have known : Search.loneDiscLift ∈ Search.loneDisc.actions := by decide
  have executable : Search.loneDiscLift.isExecutable Search.loneDiscStart = true := by decide
  obtain ⟨undone, _⟩ := undoing_leads_back Search.build_loneDisc rfl passes
  obtain ⟨b, member, ⟨op, operator, opposite, args⟩, _, returns⟩ := undone _ known executable
  refine ⟨known, executable, b, member, ?_, returns⟩
  rw [Action.name, opposite, args]
  cases op with
  | pickUp => rfl
  | putDown => exact absurd operator (by decide)
  | stack => exact absurd operator (by decide)
  | unstack => exact absurd operator (by decide)

end Schema

end StackingPlanner
