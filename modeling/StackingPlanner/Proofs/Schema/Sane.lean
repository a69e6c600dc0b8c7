import StackingPlanner.Proofs.Schema.Accepted
import StackingPlanner.Proofs.Walk

/-!
# Sane states stay sane

A state is sane if its facts describe an arrangement that could be built.  For
states within the scope of an accepted schema this is what the checks at run
time test.  Taking an object from its support and placing the held object on
another one keep a state sane, so no check fails on any walk from a sane state.
-/

namespace StackingPlanner

/-! ## The facts after a literal, an operator and an action -/

theorem State.mem_facts_bringAbout_iff {s : State} {effects : List Literal} {f : Fluent} :
    f ∈ (s.bringAbout effects).facts ↔
      .holds f ∈ effects ∨ (f ∈ s.facts ∧ ∀ l ∈ effects, l.fluent ≠ f) := by
  simp only [bringAbout, mentions, OrderedSet.mem_insertAll, OrderedSet.mem_filter,
    List.mem_map, List.mem_filter, Bool.not_eq_true', List.any_eq_false, decide_eq_true_eq]
  constructor
  · rintro (⟨⟨g, positive⟩, ⟨member, isPositive⟩, same⟩ | kept)
    · simp only at isPositive same
      exact .inl (by rw [← same, Literal.holds, ← isPositive]; exact member)
    · exact .inr kept
  · rintro (member | kept)
    · exact .inl ⟨.holds f, ⟨member, rfl⟩, rfl⟩
    · exact .inr kept

namespace Operator

theorem mem_clearLiteral_iff {m : Member} {positive : Bool} {l : Literal} :
    l ∈ clearLiteral m positive ↔
      m.category.tracksClear = true ∧ l = ⟨.clear m.name, positive⟩ := by
  unfold clearLiteral
  split <;> simp_all

/-- The facts after an operator: what it brings about, and what it does not mention. -/
theorem mem_facts_after_iff {op : Operator} {x y : Member} {s : State} {f : Fluent} :
    f ∈ (s.after (some (op.ground x y))).facts ↔
      .holds f ∈ op.effects x y ∨ (f ∈ s.facts ∧ ∀ l ∈ op.effects x y, l.fluent ≠ f) := by
  simp only [State.after, State.mem_facts_bringAbout_iff, ground, ← OrderedSet.mem_def,
    OrderedSet.mem_ofList]

theorem isExecutable_ground_iff {op : Operator} {x y : Member} {s : State} :
    (op.ground x y).isExecutable s = true ↔ ∀ l ∈ op.preconditions x y, s.holds l = true := by
  simp only [Action.isExecutable, State.satisfies, ground, List.all_eq_true,
    ← OrderedSet.mem_def, OrderedSet.mem_ofList]

/-- An object can be taken from its support with an empty hand, if it is clear. -/
theorem isExecutable_take_iff {op : Operator} {x y : Member} {s : State}
    (takes : op.places = false) :
    (op.ground x y).isExecutable s = true ↔ .on x.name y.name ∈ s.facts ∧
      .handEmpty ∈ s.facts ∧ (x.category.tracksClear = true → .clear x.name ∈ s.facts) := by
  rw [isExecutable_ground_iff]
  simp [preconditions, takes, mem_clearLiteral_iff, Literal.holds, State.holds, State.isTrue]

/-- The held object can be placed on a support that is clear. -/
theorem isExecutable_place_iff {op : Operator} {x y : Member} {s : State}
    (places : op.places = true) :
    (op.ground x y).isExecutable s = true ↔ .holding x.name ∈ s.facts ∧
      (y.category.tracksClear = true → .clear y.name ∈ s.facts) := by
  rw [isExecutable_ground_iff]
  simp [preconditions, places, mem_clearLiteral_iff, Literal.holds, State.holds, State.isTrue]

end Operator

namespace Operator

theorem mem_facts_after_take_iff {op : Operator} {x y : Member} {s : State} {f : Fluent}
    (takes : op.places = false) :
    f ∈ (s.after (some (op.ground x y))).facts ↔
      f = .holding x.name ∨ (y.category.tracksClear = true ∧ f = .clear y.name) ∨
        (f ∈ s.facts ∧ f ≠ .on x.name y.name ∧ f ≠ .handEmpty ∧
          ¬ (x.category.tracksClear = true ∧ f = .clear x.name)) := by
  rw [mem_facts_after_iff]
  simp only [effects, takes, Bool.false_eq_true, if_false, List.mem_append, List.mem_cons,
    mem_clearLiteral_iff, Literal.holds, Literal.fails, Literal.mk.injEq, List.not_mem_nil, or_imp,
    and_imp, forall_and, forall_eq]
  grind

theorem mem_facts_after_place_iff {op : Operator} {x y : Member} {s : State} {f : Fluent}
    (places : op.places = true) :
    f ∈ (s.after (some (op.ground x y))).facts ↔
      f = .on x.name y.name ∨ f = .handEmpty ∨
        (x.category.tracksClear = true ∧ f = .clear x.name) ∨
        (f ∈ s.facts ∧ f ≠ .holding x.name ∧
          ¬ (y.category.tracksClear = true ∧ f = .clear y.name)) := by
  rw [mem_facts_after_iff]
  simp only [effects, places, if_true, List.mem_append, List.mem_cons, mem_clearLiteral_iff,
    Literal.holds, Literal.fails, Literal.mk.injEq, List.not_mem_nil, or_imp, and_imp, forall_and,
    forall_eq]
  grind

end Operator

/-- An object was taken from its support between two states. -/
structure Taking (x y : Member) (s t : State) : Prop where
  on_iff : ∀ a b, .on a b ∈ t.facts ↔ .on a b ∈ s.facts ∧ ¬ (a = x.name ∧ b = y.name)
  holding_iff : ∀ a, .holding a ∈ t.facts ↔ a = x.name ∨ .holding a ∈ s.facts
  handEmpty : .handEmpty ∉ t.facts
  clear_iff : ∀ a, .clear a ∈ t.facts ↔
    (y.category.tracksClear = true ∧ a = y.name) ∨
      (.clear a ∈ s.facts ∧ ¬ (x.category.tracksClear = true ∧ a = x.name))

/-- An object was placed on a support between two states. -/
structure Placing (x y : Member) (s t : State) : Prop where
  on_iff : ∀ a b, .on a b ∈ t.facts ↔ (a = x.name ∧ b = y.name) ∨ .on a b ∈ s.facts
  holding_iff : ∀ a, .holding a ∈ t.facts ↔ .holding a ∈ s.facts ∧ a ≠ x.name
  handEmpty : .handEmpty ∈ t.facts
  clear_iff : ∀ a, .clear a ∈ t.facts ↔
    (x.category.tracksClear = true ∧ a = x.name) ∨
      (.clear a ∈ s.facts ∧ ¬ (y.category.tracksClear = true ∧ a = y.name))

theorem taking_of_ground {op : Operator} {x y : Member} {s : State} (takes : op.places = false) :
    Taking x y s (s.after (some (op.ground x y))) := by
  constructor
  · intro a b
    rw [Operator.mem_facts_after_take_iff takes]
    simp [Fluent.on, Fluent.holding, Fluent.clear, Fluent.handEmpty]
  · intro a
    rw [Operator.mem_facts_after_take_iff takes]
    simp [Fluent.on, Fluent.holding, Fluent.clear, Fluent.handEmpty]
  · rw [Operator.mem_facts_after_take_iff takes]
    simp [Fluent.on, Fluent.holding, Fluent.clear, Fluent.handEmpty]
  · intro a
    rw [Operator.mem_facts_after_take_iff takes]
    simp [Fluent.on, Fluent.holding, Fluent.clear, Fluent.handEmpty]

theorem placing_of_ground {op : Operator} {x y : Member} {s : State} (places : op.places = true) :
    Placing x y s (s.after (some (op.ground x y))) := by
  constructor
  · intro a b
    rw [Operator.mem_facts_after_place_iff places]
    simp [Fluent.on, Fluent.holding, Fluent.clear, Fluent.handEmpty]
  · intro a
    rw [Operator.mem_facts_after_place_iff places]
    simp [Fluent.on, Fluent.holding, Fluent.clear, Fluent.handEmpty]
  · rw [Operator.mem_facts_after_place_iff places]
    simp [Fluent.on, Fluent.holding, Fluent.clear, Fluent.handEmpty]
  · intro a
    rw [Operator.mem_facts_after_place_iff places]
    simp [Fluent.on, Fluent.holding, Fluent.clear, Fluent.handEmpty]

namespace Schema

/-- The facts of a state describe an arrangement that could be built. -/
structure Sane (schema : Schema) (s : State) : Prop where
  within : ∀ f ∈ s.facts, f ∈ schema.scope
  oneHeld : ∀ x y, .holding x ∈ s.facts → .holding y ∈ s.facts → x = y
  hand : .handEmpty ∈ s.facts ↔ ∀ x, .holding x ∉ s.facts
  heldFree : ∀ x y, .holding x ∈ s.facts → .on x y ∉ s.facts
  heldBare : ∀ x y, .holding y ∈ s.facts → .on x y ∉ s.facts
  oneSupport : ∀ x y z, .on x y ∈ s.facts → .on x z ∈ s.facts → y = z
  oneOccupant : ∀ m ∈ schema.members, m.category.tracksClear = true →
    ∀ x y, .on x m.name ∈ s.facts → .on y m.name ∈ s.facts → x = y
  clear : ∀ m ∈ schema.members, m.category.tracksClear = true →
    (.clear m.name ∈ s.facts ↔ (∀ x, .on x m.name ∉ s.facts) ∧ .holding m.name ∉ s.facts)

variable {schema : Schema} {s : State}

theorem mem_fluents_iff {members : List Member} {f : Fluent} :
    f ∈ fluents members ↔
      (∃ m ∈ members, m.category.tracksClear = true ∧ f = .clear m.name) ∨ f = .handEmpty ∨
        (∃ m ∈ members, m.category.movable = true ∧ f = .holding m.name) ∨
        (∃ x ∈ members, ∃ y ∈ members, x.mayRestOn y = true ∧ f = .on x.name y.name) := by
  simp only [fluents, OrderedSet.mem_ofList, List.mem_append, List.mem_map, List.mem_filter,
    List.mem_singleton, Prod.exists, mem_placements_iff]
  grind

theorem on_mem_fluents_iff {members : List Member} {a b : String} :
    .on a b ∈ fluents members ↔
      ∃ x ∈ members, ∃ y ∈ members, x.mayRestOn y = true ∧ a = x.name ∧ b = y.name := by
  rw [mem_fluents_iff]
  simp [Fluent.on, Fluent.clear, Fluent.handEmpty, Fluent.holding]

theorem mayRestOn_iff {x y : Member} : x.mayRestOn y = true ↔
    x.name ≠ y.name ∧ x.category.movable = true ∧ y.category.receives = true ∧
      x.category.name ∈ y.category.allowed := by
  simp [Member.mayRestOn, and_assoc]

theorem Accepted.within_after (accepted : schema.Accepted) {a : Action}
    (member : a ∈ schema.actions) (within : ∀ f ∈ s.facts, f ∈ schema.scope) :
    ∀ f ∈ (s.after (some a)).facts, f ∈ schema.scope := by
  obtain ⟨op, x, y, hx, hy, may, -, rfl⟩ := accepted.exists_ground member
  have movable := (mayRestOn_iff.mp may).2.1
  intro f after
  rw [accepted.scope_eq, mem_fluents_iff]
  cases places : op.places with
  | false =>
      rcases (Operator.mem_facts_after_take_iff places).mp after with
        rfl | ⟨tracks, rfl⟩ | ⟨before, _⟩
      · exact .inr (.inr (.inl ⟨x, hx, movable, rfl⟩))
      · exact .inl ⟨y, hy, tracks, rfl⟩
      · have known := within f before
        rwa [accepted.scope_eq, mem_fluents_iff] at known
  | true =>
      rcases (Operator.mem_facts_after_place_iff places).mp after with
        rfl | rfl | ⟨tracks, rfl⟩ | ⟨before, _⟩
      · exact .inr (.inr (.inr ⟨x, hx, y, hy, may, rfl⟩))
      · exact .inr (.inl rfl)
      · exact .inl ⟨x, hx, tracks, rfl⟩
      · have known := within f before
        rwa [accepted.scope_eq, mem_fluents_iff] at known

/-- Nothing rests on an object that carries nothing or does not keep track of what it carries. -/
theorem Accepted.bare_of_movable (accepted : schema.Accepted) {x : Member}
    (member : x ∈ schema.members) (movable : x.category.movable = true)
    (untracked : x.category.tracksClear = false) (z : Member) : z.mayRestOn x = false := by
  rw [← Bool.not_eq_true, mayRestOn_iff]
  rintro ⟨-, -, receives, -⟩
  cases capacity : x.category.capacity with
  | zero => simp [Category.receives, capacity] at receives
  | one => simp [Category.tracksClear, capacity] at untracked
  | unbounded =>
      have none := accepted.bounded x member movable capacity
      simp [Category.receives, none] at receives

/-- In a sane state an object that is clear or does not track its occupants is bare. -/
theorem Sane.bare (sane : schema.Sane s) (accepted : schema.Accepted) {x : Member}
    (member : x ∈ schema.members) (movable : x.category.movable = true)
    (isClear : x.category.tracksClear = true → .clear x.name ∈ s.facts) (z : String) :
    .on z x.name ∉ s.facts := by
  intro carried
  cases tracks : x.category.tracksClear with
  | true => exact ((sane.clear x member tracks).mp (isClear tracks)).1 z carried
  | false =>
      have known := sane.within _ carried
      rw [accepted.scope_eq, on_mem_fluents_iff] at known
      obtain ⟨w, -, u, hu, may, -, name⟩ := known
      rw [accepted.member_eq hu member name.symm,
        accepted.bare_of_movable member movable tracks] at may
      cases may

/-- A sane state is determined by where its objects rest and which of them is held. -/
theorem Sane.facts_eq {t : State} (sane : schema.Sane s) (other : schema.Sane t)
    (accepted : schema.Accepted) (sameOn : ∀ x y, .on x y ∈ s.facts ↔ .on x y ∈ t.facts)
    (sameHeld : ∀ x, .holding x ∈ s.facts ↔ .holding x ∈ t.facts) : s.facts = t.facts := by
  apply OrderedSet.eq_of_mem_iff
  intro f
  by_cases inScope : f ∈ schema.scope
  · rw [accepted.scope_eq] at inScope
    rcases mem_fluents_iff.mp inScope with
      ⟨m, hm, tracks, rfl⟩ | rfl | ⟨m, _, _, rfl⟩ | ⟨x, _, y, _, _, rfl⟩
    · rw [sane.clear m hm tracks, other.clear m hm tracks]
      simp only [sameOn, sameHeld]
    · rw [sane.hand, other.hand]
      simp only [sameHeld]
    · exact sameHeld m.name
    · exact sameOn x.name y.name
  · constructor
    · intro member
      exact absurd (sane.within f member) inScope
    · intro member
      exact absurd (other.within f member) inScope

section Moves

variable {x y : Member} {t : State}

/-- Taking an object that carries nothing from its support keeps a state sane. -/
theorem Sane.take (sane : schema.Sane s) (accepted : schema.Accepted) (taking : Taking x y s t)
    (within : ∀ f ∈ t.facts, f ∈ schema.scope) (hx : x ∈ schema.members) (hy : y ∈ schema.members)
    (differ : x.name ≠ y.name) (placed : .on x.name y.name ∈ s.facts)
    (free : .handEmpty ∈ s.facts) (bare : ∀ z, .on z x.name ∉ s.facts) : schema.Sane t := by
  have nothing := sane.hand.mp free
  have held : ∀ a, .holding a ∈ t.facts ↔ a = x.name := by
    intro a
    rw [taking.holding_iff]
    exact or_iff_left (nothing a)
  have onBefore : ∀ {a b}, .on a b ∈ t.facts → .on a b ∈ s.facts := fun after =>
    ((taking.on_iff _ _).mp after).1
  constructor
  case within => exact within
  case oneHeld =>
    intro a b ha hb
    rw [(held a).mp ha, (held b).mp hb]
  case hand =>
    exact ⟨fun empty => absurd empty taking.handEmpty,
      fun none => absurd ((held x.name).mpr rfl) (none x.name)⟩
  case heldFree =>
    intro a b ha after
    rw [(held a).mp ha] at after
    have support := sane.oneSupport _ _ _ (onBefore after) placed
    exact ((taking.on_iff _ _).mp after).2 ⟨rfl, support⟩
  case heldBare =>
    intro a b hb after
    rw [(held b).mp hb] at after
    exact bare a (onBefore after)
  case oneSupport =>
    intro a b c hb hc
    exact sane.oneSupport a b c (onBefore hb) (onBefore hc)
  case oneOccupant =>
    intro m hm tracks a b ha hb
    exact sane.oneOccupant m hm tracks a b (onBefore ha) (onBefore hb)
  case clear =>
    intro m hm tracks
    have before := sane.clear m hm tracks
    rw [taking.clear_iff, held]
    by_cases isSupport : m.name = y.name
    · -- The support is clear now: the object that was taken was the only one on it.
      have same := accepted.member_eq hm hy isSupport
      subst same
      refine ⟨fun _ => ⟨fun a after => ?_, fun equal => differ equal.symm⟩,
        fun _ => .inl ⟨tracks, rfl⟩⟩
      have only := sane.oneOccupant m hm tracks a x.name (onBefore after) placed
      exact ((taking.on_iff _ _).mp after).2 ⟨only, rfl⟩
    · by_cases isObject : m.name = x.name
      · have same := accepted.member_eq hm hx isObject
        subst same
        simp [tracks, differ]
      · have unmoved : ∀ a, .on a m.name ∈ t.facts ↔ .on a m.name ∈ s.facts := by
          intro a
          rw [taking.on_iff]
          exact and_iff_left (fun both => isSupport both.2)
        simp only [isSupport, isObject, and_false, not_false_eq_true, and_true, false_or, unmoved]
        rw [before]
        exact and_iff_left (nothing m.name)

theorem Sane.place (sane : schema.Sane s) (accepted : schema.Accepted) (placing : Placing x y s t)
    (within : ∀ f ∈ t.facts, f ∈ schema.scope) (hx : x ∈ schema.members) (hy : y ∈ schema.members)
    (differ : x.name ≠ y.name) (held : .holding x.name ∈ s.facts)
    (isClear : y.category.tracksClear = true → .clear y.name ∈ s.facts) : schema.Sane t := by
  have nothing : ∀ a, .holding a ∉ t.facts := by
    intro a after
    obtain ⟨before, other⟩ := (placing.holding_iff a).mp after
    exact other (sane.oneHeld _ _ before held)
  have free : ∀ a, .on x.name a ∉ s.facts := fun a => sane.heldFree _ a held
  have bare : ∀ a, .on a x.name ∉ s.facts := fun a => sane.heldBare a _ held
  constructor
  case within => exact within
  case oneHeld =>
    intro a b ha _
    exact absurd ha (nothing a)
  case hand =>
    exact ⟨fun _ => nothing, fun _ => placing.handEmpty⟩
  case heldFree =>
    intro a b ha _
    exact nothing a ha
  case heldBare =>
    intro a b hb _
    exact nothing b hb
  case oneSupport =>
    intro a b c hb hc
    rcases (placing.on_iff _ _).mp hb with ⟨rfl, rfl⟩ | hb
    · rcases (placing.on_iff _ _).mp hc with ⟨_, rfl⟩ | hc
      · rfl
      · exact absurd hc (free c)
    · rcases (placing.on_iff _ _).mp hc with ⟨rfl, _⟩ | hc
      · exact absurd hb (free b)
      · exact sane.oneSupport a b c hb hc
  case oneOccupant =>
    intro m hm tracks a b ha hb
    by_cases isSupport : m.name = y.name
    · -- Nothing was on the support before, so only the object that was placed is on it.
      have same := accepted.member_eq hm hy isSupport
      subst same
      have none := ((sane.clear m hm tracks).mp (isClear tracks)).1
      rcases (placing.on_iff _ _).mp ha with ⟨rfl, _⟩ | ha
      · rcases (placing.on_iff _ _).mp hb with ⟨rfl, _⟩ | hb
        · rfl
        · exact absurd hb (none b)
      · exact absurd ha (none a)
    · have unmoved : ∀ {c}, .on c m.name ∈ t.facts → .on c m.name ∈ s.facts := fun after =>
        ((placing.on_iff _ _).mp after).resolve_left (fun both => isSupport both.2)
      exact sane.oneOccupant m hm tracks a b (unmoved ha) (unmoved hb)
  case clear =>
    intro m hm tracks
    have before := sane.clear m hm tracks
    rw [placing.clear_iff]
    by_cases isSupport : m.name = y.name
    · have same := accepted.member_eq hm hy isSupport
      subst same
      have carried : .on x.name m.name ∈ t.facts := (placing.on_iff _ _).mpr (.inl ⟨rfl, rfl⟩)
      constructor
      · rintro (⟨_, equal⟩ | ⟨_, other⟩)
        · exact absurd equal.symm differ
        · exact absurd ⟨tracks, rfl⟩ other
      · rintro ⟨none, _⟩
        exact absurd carried (none x.name)
    · by_cases isObject : m.name = x.name
      · have same := accepted.member_eq hm hx isObject
        subst same
        refine ⟨fun _ => ⟨fun a after => ?_, nothing _⟩, fun _ => .inl ⟨tracks, rfl⟩⟩
        rcases (placing.on_iff _ _).mp after with ⟨_, equal⟩ | after
        · exact differ equal
        · exact bare a after
      · have unmoved : ∀ a, .on a m.name ∈ t.facts ↔ .on a m.name ∈ s.facts := by
          intro a
          rw [placing.on_iff]
          exact or_iff_right (fun both => isSupport both.2)
        have notHeld : .holding m.name ∉ s.facts := fun other =>
          isObject (sane.oneHeld _ _ other held)
        simp only [isSupport, isObject, and_false, not_false_eq_true, and_true, false_or, unmoved,
          before, notHeld, nothing]

end Moves

/-- Every executable action of an accepted schema keeps a state sane. -/
theorem Sane.after (sane : schema.Sane s) (accepted : schema.Accepted) {choice : Choice}
    (allowed : schema.Allows s choice) : schema.Sane (s.after choice) := by
  cases choice with
  | none => exact sane
  | some a =>
      obtain ⟨member, executable⟩ := allowed
      have within := accepted.within_after member sane.within
      obtain ⟨op, x, y, hx, hy, may, -, rfl⟩ := accepted.exists_ground member
      obtain ⟨differ, movable, -, -⟩ := mayRestOn_iff.mp may
      cases places : op.places with
      | false =>
          obtain ⟨placed, free, isClear⟩ := (Operator.isExecutable_take_iff places).mp executable
          exact sane.take accepted (taking_of_ground places) within hx hy differ placed free
            (sane.bare accepted hx movable isClear)
      | true =>
          obtain ⟨held, isClear⟩ := (Operator.isExecutable_place_iff places).mp executable
          exact sane.place accepted (placing_of_ground places) within hx hy differ held isClear

/-- Every state that is reached from a sane one is sane. -/
theorem Sane.walk (sane : schema.Sane s) (accepted : schema.Accepted) {choices : List Choice}
    {t : State} (walk : schema.Walk s choices t) : schema.Sane t := by
  induction walk with
  | nil => exact sane
  | cons allowed _ ih => exact ih (sane.after accepted allowed)

end Schema

end StackingPlanner
