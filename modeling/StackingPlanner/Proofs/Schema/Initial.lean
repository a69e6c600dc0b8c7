import StackingPlanner.Proofs.Schema.Cycles
import StackingPlanner.Proofs.Schema.Literals

/-!
# Initial states are sane

An arrangement that passes its checks has at most one held object, which is
bare and rests on nothing, no object with two supports, no overloaded support
and no cycle.  The state that completes it says what is clear and whether the
hand is empty just as the arrangement does, so it is sane, and resting on each
other is well-founded in it.
-/

namespace StackingPlanner

namespace Arrangement

/-! ## What the checks of an arrangement find -/

theorem placedTwice?_eq_none_iff {before links : Links} :
    placedTwice? before links = none ↔
      (∀ l ∈ links, before.lookup l.1 = none) ∧ links.Pairwise (fun l k => l.1 ≠ k.1) := by
  induction links generalizing before with
  | nil => simp [placedTwice?]
  | cons link rest ih =>
      have later : ∀ l ∈ rest, (before ++ [link]).lookup l.1 = none ↔
          before.lookup l.1 = none ∧ link.1 ≠ l.1 := by
        intro l _
        rw [List.lookup_append, Option.or_eq_none_iff, List.lookup_cons]
        by_cases same : l.1 = link.1
        · rw [same, beq_self_eq_true]
          exact ⟨fun both => (nomatch both.2), fun both => absurd rfl both.2⟩
        · rw [beq_eq_false_iff_ne.mpr same]
          exact ⟨fun both => ⟨both.1, Ne.symm same⟩, fun both => ⟨both.1, rfl⟩⟩
      unfold placedTwice?
      split
      · rename_i support placed
        constructor
        · intro none
          cases none
        · rintro ⟨each, _⟩
          cases placed.symm.trans (each link List.mem_cons_self)
      · rename_i new
        rw [ih, List.pairwise_cons, List.forall_mem_cons]
        grind

theorem check_eq_ok_iff {schema : Schema} {a : Arrangement} :
    a.check schema = .ok () ↔ placedTwice? [] a.links = none ∧ a.checkHeld = .ok () ∧
      a.overloaded? schema = none ∧ a.links.cycleStart? (sorted (a.links.map (·.1))) = none := by
  unfold check
  cases placedTwice? [] a.links with
  | some twice => exact ⟨fun passes => (nomatch passes), fun found => (nomatch found.1)⟩
  | none =>
      cases a.checkHeld with
      | error failure => exact ⟨fun passes => (nomatch passes), fun found => (nomatch found.2.1)⟩
      | ok =>
          cases a.overloaded? schema with
          | some support =>
              exact ⟨fun passes => (nomatch passes), fun found => (nomatch found.2.2.1)⟩
          | none =>
              rw [← Links.checkAcyclic_eq_ok_iff]
              cases a.links.checkAcyclic with
              | error failure =>
                  exact ⟨fun passes => (nomatch passes), fun found => (nomatch found.2.2.2)⟩
              | ok => exact ⟨fun _ => ⟨rfl, rfl, rfl, rfl⟩, fun _ => rfl⟩

/-- At most one object is held, and it neither rests on another one nor carries one. -/
theorem held_of_checkHeld {a : Arrangement} (passes : a.checkHeld = .ok ()) :
    (∀ x ∈ a.held, ∀ y ∈ a.held, x = y) ∧
      ∀ x ∈ a.held, a.links.lookup x = none ∧ a.occupants x = [] := by
  unfold checkHeld at passes
  split at passes
  · rename_i none
    simp [none]
  · rename_i x only
    split at passes
    · cases passes
    · rename_i free
      split at passes
      · rename_i bare
        simp only [only, List.mem_singleton]
        refine ⟨fun y hy z hz => hy.trans hz.symm, ?_⟩
        rintro y rfl
        exact ⟨free, List.isEmpty_iff.mp bare⟩
      · cases passes
  · cases passes

/-- In an arrangement in which no object is placed twice, the link of an object is the only one. -/
theorem lookup_of_placedTwice? {links : Links} (once : placedTwice? [] links = none)
    {x y : String} (link : (x, y) ∈ links) : links.lookup x = some y := by
  have apart := (placedTwice?_eq_none_iff.mp once).2
  obtain ⟨before, after, split⟩ := List.append_of_mem link
  rw [List.lookup_eq_some_iff]
  refine ⟨before, after, split, fun l earlier => ?_⟩
  rw [split] at apart
  have differ := (List.pairwise_append.mp apart).2.2 l earlier (x, y) List.mem_cons_self
  exact bne_iff_ne.mpr differ.symm

variable {schema : Schema} {a : Arrangement} {x y : String}

theorem mem_occupants_iff : x ∈ a.occupants y ↔ (x, y) ∈ a.links := by
  simp [occupants]

theorem isClear_eq_true_iff : a.isClear x = true ↔ (∀ z, (z, x) ∉ a.links) ∧ x ∉ a.held := by
  simp only [isClear, Bool.and_eq_true, List.isEmpty_iff, List.eq_nil_iff_forall_not_mem,
    mem_occupants_iff, Bool.not_eq_true', ← Bool.not_eq_true, List.contains_iff_mem]

/-! ## The facts of an arrangement -/


theorem mem_facts_iff {f : Fluent} : f ∈ a.facts schema ↔
    (∃ m ∈ schema.members, m.category.tracksClear = true ∧ a.isClear m.name = true ∧
        f = .clear m.name) ∨
      (a.held = [] ∧ f = .handEmpty) ∨ (∃ x ∈ a.held, f = .holding x) ∨
        ∃ x y, (x, y) ∈ a.links ∧ f = .on x y := by
  simp only [facts, OrderedSet.mem_ofList, List.mem_append, List.mem_map, List.mem_filter,
    Bool.and_eq_true, List.mem_ite_nil_right, List.isEmpty_iff, List.mem_singleton, Prod.exists,
    and_assoc, or_assoc]
  grind

theorem on_mem_facts_iff : .on x y ∈ a.facts schema ↔ (x, y) ∈ a.links := by
  simp [mem_facts_iff, Fluent.on, Fluent.clear, Fluent.handEmpty, Fluent.holding]

theorem holding_mem_facts_iff : .holding x ∈ a.facts schema ↔ x ∈ a.held := by
  simp [mem_facts_iff, Fluent.on, Fluent.clear, Fluent.handEmpty, Fluent.holding]

theorem handEmpty_mem_facts_iff : .handEmpty ∈ a.facts schema ↔ a.held = [] := by
  simp [mem_facts_iff, Fluent.on, Fluent.clear, Fluent.handEmpty, Fluent.holding]

theorem clear_mem_facts_iff {m : Member} (member : m ∈ schema.members)
    (tracks : m.category.tracksClear = true) :
    .clear m.name ∈ a.facts schema ↔ a.isClear m.name = true := by
  rw [mem_facts_iff]
  constructor
  · rintro (⟨n, _, _, isClear, same⟩ | ⟨_, same⟩ | ⟨_, _, same⟩ | ⟨_, _, _, same⟩)
    · simp only [Fluent.clear, Fluent.mk.injEq, List.cons.injEq, and_true, true_and] at same
      rwa [same]
    · simp [Fluent.clear, Fluent.handEmpty] at same
    · simp [Fluent.clear, Fluent.holding] at same
    · simp [Fluent.clear, Fluent.on] at same
  · intro isClear
    exact .inl ⟨m, member, tracks, isClear, rfl⟩

/-- In the state that completes a checked arrangement no chain of supports goes on forever. -/
theorem wellFounded_of_check (passes : a.check schema = .ok ()) :
    WellFounded (fun y x => .on x y ∈ a.facts schema) := by
  obtain ⟨once, _, _, acyclic⟩ := check_eq_ok_iff.mp passes
  have listed : ∀ x y, (x, y) ∈ a.links → x ∈ sorted (a.links.map (·.1)) := by
    intro x y link
    exact List.mem_mergeSort.mpr (List.mem_map_of_mem link)
  simp only [on_mem_facts_iff]
  exact Links.wellFounded_of_cycleStart? (fun x y => lookup_of_placedTwice? once)
    listed acyclic

end Arrangement

namespace Schema

variable {schema : Schema}

structure Covers (schema : Schema) (a : Arrangement) : Prop where
  links : ∀ x y, (x, y) ∈ a.links → .on x y ∈ schema.scope
  held : ∀ x ∈ a.held, .holding x ∈ schema.scope

/-- The fluents that a list of literals says hold. -/
def listedFacts (literals : List Literal) : OrderedSet Fluent :=
  OrderedSet.ofList ((literals.filter (·.positive)).map (·.fluent))

theorem mem_listedFacts_iff {literals : List Literal} {f : Fluent} :
    f ∈ listedFacts literals ↔ .holds f ∈ literals := by
  simp only [listedFacts, OrderedSet.mem_ofList, List.mem_map, List.mem_filter]
  constructor
  · rintro ⟨⟨g, positive⟩, ⟨listed, isPositive⟩, rfl⟩
    cases isPositive
    exact listed
  · intro listed
    exact ⟨.holds f, ⟨listed, rfl⟩, rfl⟩

/--
A list of literals describes the state that completes the arrangement of the
fluents that it lists, if the list and the arrangement pass their checks and
the state does not contradict the list.
-/
theorem initialState_eq_ok_iff {literals : List Literal} {s : State} :
    schema.initialState literals = .ok s ↔
      schema.checkLiterals "initial" literals = .ok () ∧
        (Arrangement.ofFacts (listedFacts literals)).check schema = .ok () ∧
          contradicted? s.facts literals = none ∧
            s = ⟨schema.scope, (Arrangement.ofFacts (listedFacts literals)).facts schema⟩ := by
  constructor
  · intro described
    obtain ⟨a, arranged, completed⟩ := Except.exists_of_bind_eq_ok described
    obtain ⟨_, checked, arranged⟩ := Except.exists_of_bind_eq_ok arranged
    obtain ⟨_, passes, arranged⟩ := Except.exists_of_bind_eq_ok arranged
    cases arranged
    unfold complete at completed
    split at completed
    · cases completed
    · rename_i consistent
      cases completed
      exact ⟨checked, passes, consistent, rfl⟩
  · rintro ⟨checked, passes, consistent, rfl⟩
    have arranged : schema.arrangement literals =
        .ok (Arrangement.ofFacts (listedFacts literals)) := by
      rw [arrangement, checked]
      change ((Arrangement.ofFacts (listedFacts literals)).check schema >>= _) = _
      rw [passes]
      rfl
    rw [initialState, arranged]
    change complete schema _ literals = _
    rw [complete, consistent]

theorem covers_of_within (accepted : schema.Accepted) {facts : OrderedSet Fluent}
    (within : ∀ f ∈ facts, f ∈ schema.scope) : schema.Covers (Arrangement.ofFacts facts) := by
  constructor
  · intro x y link
    exact within _ ((mem_links_iff accepted within).mp link)
  · intro x held
    exact within _ ((mem_held_iff accepted within).mp held)

theorem mem_scope_of_mem_listedFacts {literals : List Literal}
    (known : ∀ l ∈ literals, l.fluent ∈ schema.scope) :
    ∀ f ∈ listedFacts literals, f ∈ schema.scope := by
  intro f listed
  exact known (.holds f) (mem_listedFacts_iff.mp listed)

/-- The state that completes a checked arrangement is sane. -/
theorem sane_of_check (accepted : schema.Accepted) {a : Arrangement} (covers : schema.Covers a)
    (passes : a.check schema = .ok ()) : schema.Sane ⟨schema.scope, a.facts schema⟩ := by
  obtain ⟨once, handPasses, room, _⟩ := Arrangement.check_eq_ok_iff.mp passes
  obtain ⟨oneHeld, held⟩ := Arrangement.held_of_checkHeld handPasses
  constructor
  case within =>
    intro f member
    rcases Arrangement.mem_facts_iff.mp member with
      ⟨m, hm, tracks, _, rfl⟩ | ⟨_, rfl⟩ | ⟨x, hx, rfl⟩ | ⟨x, y, link, rfl⟩
    · rw [accepted.scope_eq, mem_fluents_iff]
      exact .inl ⟨m, hm, tracks, rfl⟩
    · rw [accepted.scope_eq, mem_fluents_iff]
      exact .inr (.inl rfl)
    · exact covers.held x hx
    · exact covers.links x y link
  case oneHeld =>
    intro x y hx hy
    rw [Arrangement.holding_mem_facts_iff] at hx hy
    exact oneHeld x hx y hy
  case hand =>
    simp only [Arrangement.handEmpty_mem_facts_iff, Arrangement.holding_mem_facts_iff,
      List.eq_nil_iff_forall_not_mem]
  case heldFree =>
    intro x y hx placed
    rw [Arrangement.holding_mem_facts_iff] at hx
    rw [Arrangement.on_mem_facts_iff] at placed
    cases (Arrangement.lookup_of_placedTwice? once placed).symm.trans (held x hx).1
  case heldBare =>
    intro x y hy carried
    rw [Arrangement.holding_mem_facts_iff] at hy
    rw [Arrangement.on_mem_facts_iff, ← Arrangement.mem_occupants_iff, (held y hy).2] at carried
    cases carried
  case oneSupport =>
    intro x y z hy hz
    rw [Arrangement.on_mem_facts_iff] at hy hz
    exact Option.some.inj ((Arrangement.lookup_of_placedTwice? once hy).symm.trans
      (Arrangement.lookup_of_placedTwice? once hz))
  case oneOccupant =>
    intro m hm tracks x y hx hy
    rw [Arrangement.on_mem_facts_iff] at hx hy
    have few := List.find?_eq_none.mp (Option.map_eq_none_iff.mp room) _ hx
    simp only [member?_eq_some accepted hm, Option.any_some, tracks, Bool.true_and,
      decide_eq_true_eq, Nat.not_lt] at few
    rw [← Arrangement.mem_occupants_iff] at hx hy
    generalize a.occupants m.name = occupants at few hx hy
    match occupants with
    | [] => cases hx
    | [z] => rw [List.mem_singleton.mp hx, List.mem_singleton.mp hy]
    | _ :: _ :: _ => simp at few
  case clear =>
    intro m hm tracks
    simp only [Arrangement.clear_mem_facts_iff hm tracks, Arrangement.isClear_eq_true_iff,
      Arrangement.on_mem_facts_iff, Arrangement.holding_mem_facts_iff]

/-- An initial state is sane, and no chain of supports goes on forever in it. -/
theorem sane_of_initialState (accepted : schema.Accepted) {literals : List Literal} {s : State}
    (described : schema.initialState literals = .ok s) :
    s.scope = schema.scope ∧ schema.Sane s ∧ WellFounded (fun y x => .on x y ∈ s.facts) := by
  obtain ⟨checked, passes, _, rfl⟩ := initialState_eq_ok_iff.mp described
  have known := ((checkLiterals_eq_ok_iff accepted).mp checked).1
  have covers := covers_of_within accepted (mem_scope_of_mem_listedFacts known)
  exact ⟨rfl, sane_of_check accepted covers passes, Arrangement.wellFounded_of_check passes⟩

end Schema

end StackingPlanner
