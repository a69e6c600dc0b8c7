import Mathlib.Data.List.Sort
import StackingPlanner.Proofs.Schema.Positions

/-!
# The actions of a schema

An operator demands and brings about only what concerns its object and its
support: that one rests on the other, that the object is held, that the hand is
empty, and that one of the two is clear.  So an action never contradicts itself,
and that check of a declaration never fails.  For every support on which an
object may rest exactly one action takes it from there and one places it there,
and there are no others.
-/

namespace StackingPlanner

namespace Operator

variable {op : Operator} {x y : Member} {l : Literal}

@[simp]
theorem mem_preconditions_ground : l ∈ (op.ground x y).preconditions ↔ l ∈ op.preconditions x y :=
  OrderedSet.mem_ofList

@[simp]
theorem mem_effects_ground : l ∈ (op.ground x y).effects ↔ l ∈ op.effects x y :=
  OrderedSet.mem_ofList

/-- What moving an object to or from a support can be about. -/
inductive Concerns (x y : Member) : Fluent → Prop where
  | resting : Concerns x y (.on x.name y.name)
  | held : Concerns x y (.holding x.name)
  | hand : Concerns x y .handEmpty
  | objectClear (tracks : x.category.tracksClear = true) : Concerns x y (.clear x.name)
  | supportClear (tracks : y.category.tracksClear = true) : Concerns x y (.clear y.name)

theorem mem_preconditions_iff : l ∈ op.preconditions x y ↔
    op.places = true ∧ (l = .holds (.holding x.name) ∨ l ∈ clearLiteral y true) ∨
      op.places = false ∧ (l = .holds (.on x.name y.name) ∨ l = .holds .handEmpty ∨
        l ∈ clearLiteral x true) := by
  rw [preconditions]
  cases op.places <;> simp

theorem mem_effects_iff : l ∈ op.effects x y ↔
    op.places = true ∧ (l = .holds (.on x.name y.name) ∨ l = .fails (.holding x.name) ∨
        l = .holds .handEmpty ∨ l ∈ clearLiteral y false ∨ l ∈ clearLiteral x true) ∨
      op.places = false ∧ (l = .holds (.holding x.name) ∨ l = .fails (.on x.name y.name) ∨
        l = .fails .handEmpty ∨ l ∈ clearLiteral x false ∨ l ∈ clearLiteral y true) := by
  rw [effects]
  cases op.places <;> simp

theorem concerns_of_mem_preconditions (member : l ∈ op.preconditions x y) :
    Concerns x y l.fluent := by
  rcases mem_preconditions_iff.mp member with ⟨_, rfl | isClear⟩ | ⟨_, rfl | rfl | isClear⟩
  · exact .held
  · obtain ⟨tracks, rfl⟩ := mem_clearLiteral_iff.mp isClear
    exact .supportClear tracks
  · exact .resting
  · exact .hand
  · obtain ⟨tracks, rfl⟩ := mem_clearLiteral_iff.mp isClear
    exact .objectClear tracks

theorem concerns_of_mem_effects (member : l ∈ op.effects x y) : Concerns x y l.fluent := by
  rcases mem_effects_iff.mp member with
    ⟨_, rfl | rfl | rfl | isClear | isClear⟩ | ⟨_, rfl | rfl | rfl | isClear | isClear⟩
  · exact .resting
  · exact .held
  · exact .hand
  · obtain ⟨tracks, rfl⟩ := mem_clearLiteral_iff.mp isClear
    exact .supportClear tracks
  · obtain ⟨tracks, rfl⟩ := mem_clearLiteral_iff.mp isClear
    exact .objectClear tracks
  · exact .held
  · exact .resting
  · exact .hand
  · obtain ⟨tracks, rfl⟩ := mem_clearLiteral_iff.mp isClear
    exact .objectClear tracks
  · obtain ⟨tracks, rfl⟩ := mem_clearLiteral_iff.mp isClear
    exact .supportClear tracks

/-- An operator demands only that fluents hold. -/
theorem positive_of_mem_preconditions (member : l ∈ op.preconditions x y) : l.positive = true := by
  rcases mem_preconditions_iff.mp member with ⟨_, rfl | isClear⟩ | ⟨_, rfl | rfl | isClear⟩
  · rfl
  · rw [(mem_clearLiteral_iff.mp isClear).2]
  · rfl
  · rfl
  · rw [(mem_clearLiteral_iff.mp isClear).2]

/-- An operator on two different objects never brings a fluent about and its negation as well. -/
theorem fails_not_mem_effects (differ : x.name ≠ y.name) {f : Fluent}
    (holds : .holds f ∈ op.effects x y) : .fails f ∉ op.effects x y := by
  intro fails
  rw [mem_effects_iff] at holds fails
  -- Of two effects on one fluent only those that are about clear objects could
  -- be contrary, and these are about different objects.
  simp only [mem_clearLiteral_iff, Literal.holds, Literal.fails, Literal.mk.injEq] at holds fails
  simp only [Fluent.on, Fluent.holding, Fluent.handEmpty, Fluent.clear] at holds fails
  grind

end Operator

namespace Schema

variable {schema : Schema}

/-! ## The check for actions that contradict themselves -/

theorem contradictoryAction?_groundActions (members : List Member) :
    contradictoryAction? (groundActions members) = none := by
  refine List.findSome?_eq_none_iff.mpr (fun a member => ?_)
  obtain ⟨op, x, y, _, _, may, _, rfl⟩ := mem_groundActions_iff.mp member
  rw [Option.map_eq_none_iff, Literal.clash?_eq_none_iff]
  intro f holds fails
  rw [← OrderedSet.mem_def, Operator.mem_effects_ground] at holds fails
  exact Operator.fails_not_mem_effects (mayRestOn_iff.mp may).1 holds fails

theorem acceptCategories_ne_actionContradicts {before : List Category}
    {declared : List CategoryDeclaration} {action : String} {l : Literal} :
    acceptCategories before declared ≠ .error (.actionContradicts action l) := by
  induction declared generalizing before with
  | nil =>
      intro accepted
      cases accepted
  | cons d rest ih =>
      intro accepted
      unfold acceptCategories at accepted
      split at accepted
      · cases accepted
      · split at accepted
        · cases accepted
        · dsimp only at accepted
          split at accepted
          · cases accepted
          · exact ih accepted

theorem resolve_ne_actionContradicts {categories : List Category} {before : List Member}
    {objects : List DomainObject} {action : String} {l : Literal} :
    resolve categories before objects ≠ .error (.actionContradicts action l) := by
  induction objects generalizing before with
  | nil =>
      intro resolved
      cases resolved
  | cons o rest ih =>
      intro resolved
      unfold resolve at resolved
      split at resolved
      · cases resolved
      · split at resolved
        · cases resolved
        · split at resolved
          · cases resolved
          · rename_i failure inner
            cases resolved
            exact ih inner

/-- No declaration is refused because one of its actions contradicts itself. -/
theorem build_ne_actionContradicts (objects : List DomainObject)
    (declared : List CategoryDeclaration) (action : String) (l : Literal) :
    build objects declared ≠ .error (.actionContradicts action l) := by
  intro refused
  rcases Except.bind_eq_error_iff.mp refused with accepting | ⟨categories, _, refused⟩
  · exact acceptCategories_ne_actionContradicts accepting
  · split at refused
    · cases refused
    · rcases Except.bind_eq_error_iff.mp refused with resolving | ⟨members, _, refused⟩
      · exact resolve_ne_actionContradicts resolving
      · have consistent : contradictoryAction? (ofMembers categories members).actions = none :=
          contradictoryAction?_groundActions members
        simp only [consistent] at refused
        cases refused

/-! ## The actions on an object and a support -/

section Accepted

variable (accepted : schema.Accepted) {x y : Member} (hx : x ∈ schema.members)
  (hy : y ∈ schema.members) (may : x.mayRestOn y = true)

include accepted hx hy may

theorem Accepted.mem_scope_of_concerns {f : Fluent} (concerns : Operator.Concerns x y f) :
    f ∈ schema.scope := by
  rw [accepted.scope_eq, mem_fluents_iff]
  cases concerns with
  | resting => exact .inr (.inr (.inr ⟨x, hx, y, hy, may, rfl⟩))
  | held => exact .inr (.inr (.inl ⟨x, hx, (mayRestOn_iff.mp may).2.1, rfl⟩))
  | hand => exact .inr (.inl rfl)
  | objectClear tracks => exact .inl ⟨x, hx, tracks, rfl⟩
  | supportClear tracks => exact .inl ⟨y, hy, tracks, rfl⟩

theorem Accepted.actions_on :
    schema.actions.filter (fun a => a.args = [x.name, y.name]) =
      (Operator.all.filter (suits · y)).map (·.ground x y) := by
  have asymm : Std.Antisymm (fun a b : Action => a.words < b.words) :=
    ⟨fun a b below above => absurd (StrictOrder.trans below above) (StrictOrder.irrefl a.words)⟩
  have irrefl : Std.Irrefl (fun a b : Action => a.words < b.words) :=
    ⟨fun a => StrictOrder.irrefl a.words⟩
  refine List.Pairwise.eq_of_mem_iff (accepted.actions_pairwise.filter _) ?_ (fun a => ?_)
  · rw [List.pairwise_map]
    refine (operators_pairwise.filter _).imp (fun below => ?_)
    exact List.cons_lt_cons_iff.mpr (.inl below)
  · rw [List.mem_filter, accepted.actions_eq, mem_groundActions_iff, decide_eq_true_eq,
      List.mem_map]
    constructor
    · rintro ⟨⟨op, u, v, hu, hv, _, suit, rfl⟩, same⟩
      simp only [Operator.ground, List.cons.injEq, and_true] at same
      cases accepted.member_eq hu hx same.1
      cases accepted.member_eq hv hy same.2
      exact ⟨op, List.mem_filter.mpr ⟨by cases op <;> decide, suit⟩, rfl⟩
    · rintro ⟨op, suit, rfl⟩
      exact ⟨⟨op, x, y, hx, hy, may, (List.mem_filter.mp suit).2, rfl⟩, rfl⟩

/-- On a support that operators serve one action takes an object and one places it. -/
theorem Accepted.operators_on (serves : y.category.serves = true) :
    (schema.actions.filter (fun a => a.args = [x.name, y.name])).map (·.operator) =
      if y.category.movable then ["stack", "unstack"] else ["pick_up", "put_down"] := by
  rw [accepted.actions_on hx hy may, List.map_map]
  cases movable : y.category.movable <;>
    simp [Operator.all, suits, serves, movable, Operator.supportMovable, Operator.ground,
      Operator.name]

end Accepted

/-- A literal that an action requires or brings about is about its own object and support. -/
theorem concerns_of_mem_ground {op : Operator} {x y : Member} {l : Literal}
    (member : l ∈ (op.ground x y).preconditions ∨ l ∈ (op.ground x y).effects) :
    Operator.Concerns x y l.fluent := by
  rcases member with required | caused
  · exact Operator.concerns_of_mem_preconditions (Operator.mem_preconditions_ground.mp required)
  · exact Operator.concerns_of_mem_effects (Operator.mem_effects_ground.mp caused)

/--
The actions of a schema move objects to and from supports on which they may
rest, and each of them is consistent, within scope and about its own arguments.
-/
structure Grounded (schema : Schema) : Prop where
  ascending : schema.actions.Pairwise (fun a b => a.words < b.words)
  supported : ∀ a ∈ schema.actions, ∃ x y, a.args = [x, y] ∧ schema.canSupport y x = .ok true
  within : ∀ a ∈ schema.actions, ∀ l, l ∈ a.preconditions ∨ l ∈ a.effects →
    l.fluent ∈ schema.scope
  possible : ∀ a ∈ schema.actions, ∀ l ∈ a.preconditions, l.contrary ∉ a.preconditions
  consistent : ∀ a ∈ schema.actions, ∀ l ∈ a.effects, l.contrary ∉ a.effects
  own : ∀ a ∈ schema.actions, ∀ l, l ∈ a.preconditions ∨ l ∈ a.effects →
    ∀ name ∈ l.fluent.args, name ∈ a.args
  checked : ∀ l, schema.checkLiteral l = .ok () ↔ l.fluent ∈ schema.scope
  /-- The establishers of a fluent are the actions that bring it about, in order. -/
  establishers : ∀ f, (schema.establishers f).Pairwise (fun a b => a.words < b.words) ∧
    ∀ a, a ∈ schema.establishers f ↔ a ∈ schema.actions ∧ .holds f ∈ a.effects

/-- Every object can be taken from each support on which it may rest, and placed there. -/
structure Paired (schema : Schema) : Prop where
  /-- Exactly two actions are about the object and the support. -/
  pair : ∀ x y, schema.canSupport y x = .ok true → ∃ support, schema.member y = .ok support ∧
    (schema.actions.filter (fun a => a.args = [x, y])).map (·.operator) =
      if support.category.movable then ["stack", "unstack"] else ["pick_up", "put_down"]
  established : ∀ f ∈ schema.scope, f.name = "on" → schema.establishers f ≠ []

theorem Accepted.grounded (accepted : schema.Accepted) : schema.Grounded := by
  constructor
  case ascending => exact accepted.actions_pairwise
  case supported =>
    intro a known
    obtain ⟨op, x, y, hx, hy, may, -, rfl⟩ := accepted.exists_ground known
    refine ⟨x.name, y.name, rfl, (canSupport_eq_true_iff accepted).mpr ?_⟩
    exact accepted.mem_scope_of_concerns hx hy may .resting
  case within =>
    intro a known l listed
    obtain ⟨op, x, y, hx, hy, may, -, rfl⟩ := accepted.exists_ground known
    exact accepted.mem_scope_of_concerns hx hy may (concerns_of_mem_ground listed)
  case possible =>
    intro a known l required contrary
    obtain ⟨op, x, y, -, -, -, -, rfl⟩ := accepted.exists_ground known
    rw [Operator.mem_preconditions_ground] at required contrary
    have positive := Operator.positive_of_mem_preconditions required
    have other := Operator.positive_of_mem_preconditions contrary
    rw [Literal.contrary, positive] at other
    cases other
  case consistent =>
    intro a known l caused contrary
    obtain ⟨op, x, y, -, -, may, -, rfl⟩ := accepted.exists_ground known
    have differ := (mayRestOn_iff.mp may).1
    rw [Operator.mem_effects_ground] at caused contrary
    obtain ⟨f, positive⟩ := l
    cases positive with
    | false => exact Operator.fails_not_mem_effects differ contrary caused
    | true => exact Operator.fails_not_mem_effects differ caused contrary
  case own =>
    intro a known l listed name argument
    obtain ⟨op, x, y, -, -, -, -, rfl⟩ := accepted.exists_ground known
    have concerns := concerns_of_mem_ground listed
    generalize l.fluent = f at concerns argument
    cases concerns with
    | resting => exact argument
    | held => simp_all [Fluent.holding, Operator.ground]
    | hand => cases argument
    | objectClear => simp_all [Fluent.clear, Operator.ground]
    | supportClear => simp_all [Fluent.clear, Operator.ground]
  case checked => exact fun l => checkLiteral_eq_ok_iff accepted
  case establishers =>
    intro f
    refine ⟨accepted.actions_pairwise.filter _, fun a => ?_⟩
    rw [Schema.establishers, List.mem_filter, decide_eq_true_eq]

theorem Accepted.paired (accepted : schema.Accepted)
    (serves : ∀ m ∈ schema.members, m.category.serves = true) : schema.Paired := by
  constructor
  case pair =>
    intro x y supports
    rw [canSupport_eq_true_iff accepted, accepted.scope_eq, on_mem_fluents_iff] at supports
    obtain ⟨m, hm, n, hn, may, rfl, rfl⟩ := supports
    refine ⟨n, ?_, accepted.operators_on hm hn may (serves n hn)⟩
    rw [member, member?_eq_some accepted hn]
  case established =>
    intro f inScope named none
    have known := inScope
    rw [accepted.scope_eq] at known
    rcases mem_fluents_iff.mp known with
      ⟨_, _, _, rfl⟩ | rfl | ⟨_, _, _, rfl⟩ | ⟨x, _, y, _, _, rfl⟩
    · simp [Fluent.clear] at named
    · simp [Fluent.handEmpty] at named
    · simp [Fluent.holding] at named
    · obtain ⟨a, member, holds⟩ :=
        establishes_on accepted serves ((canSupport_eq_true_iff accepted).mpr inScope)
      have listed : a ∈ schema.establishers (.on x.name y.name) :=
        List.mem_filter.mpr ⟨member, decide_eq_true holds⟩
      rw [none] at listed
      cases listed

/--
No declaration is refused because one of its actions contradicts itself.  The
actions of an accepted one are well-formed.  If its categories declare as truth
values what can be moved, there are two of them for each object and support.
-/
theorem build_grounds (objects : List DomainObject) (declared : List CategoryDeclaration) :
    (∀ action l, build objects declared ≠ .error (.actionContradicts action l)) ∧
      ∀ schema, build objects declared = .ok schema → schema.Grounded ∧
        ((∀ d ∈ declared, d.movable.truth?.isSome = true) → schema.Paired) := by
  refine ⟨build_ne_actionContradicts objects declared, fun schema built => ?_⟩
  have accepted := accepted_of_build built
  exact ⟨accepted.grounded, fun typed => accepted.paired (serves_of_build built typed)⟩

/-- The disc can be picked up from the second peg and put down there. -/
theorem build_grounds_loneDisc :
    Search.loneDisc.Grounded ∧
      (Search.loneDisc.actions.filter (fun a => a.args = ["a", "q"])).map (·.operator) =
        ["pick_up", "put_down"] := by
  obtain ⟨_, grounds⟩ := build_grounds Search.loneDiscObjects Puzzle.Tower.categories
  obtain ⟨grounded, paired⟩ := grounds Search.loneDisc Search.build_loneDisc
  obtain ⟨support, found, operators⟩ := (paired (by decide)).pair "a" "q" rfl
  cases found
  exact ⟨grounded, operators⟩

end Schema

end StackingPlanner
