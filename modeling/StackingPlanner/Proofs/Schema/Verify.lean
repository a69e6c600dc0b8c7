import StackingPlanner.Schema.Sanity
import StackingPlanner.Proofs.Schema.Sane

/-!
# The checks at run time test sanity

The checks read the arrangement off the facts: the list of what rests where and
the list of what is held.  For states within the scope of an accepted schema
these lists hold exactly the facts on placings and holdings, each once, and so
nothing is found wrong exactly if the state is sane.  Checked transitions along
a walk from a sane state therefore never fail.
-/

namespace StackingPlanner

theorem List.Nodup.length_le_one_iff {α : Type} {l : List α} (nodup : l.Nodup) :
    l.length ≤ 1 ↔ ∀ a ∈ l, ∀ b ∈ l, a = b := by
  match l with
  | [] => simp
  | [a] => simp
  | a :: b :: rest =>
      have differ : a ≠ b := (List.nodup_cons.mp nodup).1 ∘ fun same => by simp [same]
      simp only [List.length_cons]
      constructor
      · intro short
        omega
      · intro same
        exact absurd (same a (by simp) b (by simp)) differ

namespace Schema

variable {schema : Schema} {s : State}

/-- A fluent in scope that places an object is about an object and its support. -/
theorem eq_on_of_placement? {members : List Member} {f : Fluent} (inScope : f ∈ fluents members)
    {a b : String} (read : f.placement? = some (a, b)) : f = .on a b := by
  rcases mem_fluents_iff.mp inScope with
    ⟨_, _, _, rfl⟩ | rfl | ⟨_, _, _, rfl⟩ | ⟨_, _, _, _, _, rfl⟩
  · cases read
  · cases read
  · cases read
  · simp only [Fluent.placement?, Fluent.on, if_true, Option.some.injEq, Prod.mk.injEq] at read
    rw [read.1, read.2]

theorem eq_holding_of_held? {members : List Member} {f : Fluent} (inScope : f ∈ fluents members)
    {a : String} (read : f.held? = some a) : f = .holding a := by
  rcases mem_fluents_iff.mp inScope with
    ⟨_, _, _, rfl⟩ | rfl | ⟨_, _, _, rfl⟩ | ⟨_, _, _, _, _, rfl⟩
  · simp [Fluent.held?, Fluent.clear] at read
  · cases read
  · simp only [Fluent.held?, Fluent.holding, if_true, Option.some.injEq] at read
    rw [read]
  · simp [Fluent.held?, Fluent.on] at read

section Reading

variable (accepted : schema.Accepted) {facts : OrderedSet Fluent}
  (within : ∀ f ∈ facts, f ∈ schema.scope)

include accepted within

theorem mem_links_iff {a b : String} :
    (a, b) ∈ (Arrangement.ofFacts facts).links ↔ .on a b ∈ facts := by
  simp only [Arrangement.ofFacts, List.mem_filterMap]
  constructor
  · rintro ⟨f, member, read⟩
    have inScope := within f member
    rw [accepted.scope_eq] at inScope
    exact eq_on_of_placement? inScope read ▸ member
  · intro member
    exact ⟨.on a b, member, rfl⟩

theorem mem_held_iff {a : String} :
    a ∈ (Arrangement.ofFacts facts).held ↔ .holding a ∈ facts := by
  simp only [Arrangement.ofFacts, List.mem_filterMap]
  constructor
  · rintro ⟨f, member, read⟩
    have inScope := within f member
    rw [accepted.scope_eq] at inScope
    exact eq_holding_of_held? inScope read ▸ member
  · intro member
    exact ⟨.holding a, member, rfl⟩

theorem links_nodup : (Arrangement.ofFacts facts).links.Nodup := by
  refine List.pairwise_filterMap.mpr (facts.ascending.imp_of_mem ?_)
  rintro f g hf hg below ⟨a, b⟩ readF link readG rfl
  have inF := within f hf
  have inG := within g hg
  rw [accepted.scope_eq] at inF inG
  rw [eq_on_of_placement? inF readF, eq_on_of_placement? inG readG] at below
  exact StrictOrder.irrefl _ below

theorem held_nodup : (Arrangement.ofFacts facts).held.Nodup := by
  refine List.pairwise_filterMap.mpr (facts.ascending.imp_of_mem ?_)
  rintro f g hf hg below a readF other readG rfl
  have inF := within f hf
  have inG := within g hg
  rw [accepted.scope_eq] at inF inG
  rw [eq_holding_of_held? inF readF, eq_holding_of_held? inG readG] at below
  exact StrictOrder.irrefl _ below

end Reading

section Violations

variable (accepted : schema.Accepted) (within : ∀ f ∈ s.facts, f ∈ schema.scope)

include accepted within

theorem occupants_isEmpty_iff {y : String} :
    ((Arrangement.ofFacts s.facts).occupants y).isEmpty = true ↔ ∀ x, .on x y ∉ s.facts := by
  simp only [Arrangement.occupants, List.isEmpty_iff, List.map_eq_nil_iff, List.filter_eq_nil_iff,
    decide_eq_true_eq, Prod.forall, mem_links_iff accepted within]
  constructor
  · intro none x carried
    exact none x y carried rfl
  · rintro none x _ carried rfl
    exact none x carried

theorem occupants_length_le_iff {y : String} :
    ((Arrangement.ofFacts s.facts).occupants y).length ≤ 1 ↔
      ∀ a b, .on a y ∈ s.facts → .on b y ∈ s.facts → a = b := by
  have nodup := (links_nodup accepted within).filter (fun l => decide (l.2 = y))
  rw [Arrangement.occupants, List.length_map, List.Nodup.length_le_one_iff nodup]
  simp only [List.mem_filter, decide_eq_true_eq, and_imp, Prod.forall, Prod.mk.injEq,
    mem_links_iff accepted within]
  grind

theorem supportCount_le_iff {x : String} :
    supportCount (Arrangement.ofFacts s.facts) x ≤ 1 ↔
      ∀ a b, .on x a ∈ s.facts → .on x b ∈ s.facts → a = b := by
  have nodup := (links_nodup accepted within).filter (fun l => decide (l.1 = x))
  rw [supportCount, List.Nodup.length_le_one_iff nodup]
  simp only [List.mem_filter, decide_eq_true_eq, and_imp, Prod.forall, Prod.mk.injEq,
    mem_links_iff accepted within]
  grind

theorem isClear_iff {x : String} :
    (Arrangement.ofFacts s.facts).isClear x = true ↔
      (∀ a, .on a x ∉ s.facts) ∧ .holding x ∉ s.facts := by
  rw [Arrangement.isClear, Bool.and_eq_true, occupants_isEmpty_iff accepted within,
    Bool.not_eq_true', ← Bool.not_eq_true, List.contains_iff_mem, mem_held_iff accepted within]

theorem held_isEmpty_iff :
    (Arrangement.ofFacts s.facts).held.isEmpty = true ↔ ∀ x, .holding x ∉ s.facts := by
  simp only [List.isEmpty_iff, List.eq_nil_iff_forall_not_mem, mem_held_iff accepted within]

theorem heldViolations_eq_nil_iff :
    heldViolations (Arrangement.ofFacts s.facts) (s.isTrue .handEmpty) = [] ↔
      (∀ x y, .holding x ∈ s.facts → .holding y ∈ s.facts → x = y) ∧
      (.handEmpty ∈ s.facts ↔ ∀ x, .holding x ∉ s.facts) ∧
      ∀ x, .holding x ∈ s.facts → (∀ y, .on x y ∉ s.facts) ∧ ∀ y, .on y x ∉ s.facts := by
  have one : ¬ 1 < (Arrangement.ofFacts s.facts).held.length ↔
      ∀ x y, .holding x ∈ s.facts → .holding y ∈ s.facts → x = y := by
    rw [Nat.not_lt, List.Nodup.length_le_one_iff (held_nodup accepted within)]
    simp only [mem_held_iff accepted within]
    exact ⟨fun same x y hx hy => same x hx y hy, fun same x hx y hy => same x y hx hy⟩
  have hand : ¬ (s.isTrue .handEmpty == !(Arrangement.ofFacts s.facts).held.isEmpty) = true ↔
      (.handEmpty ∈ s.facts ↔ ∀ x, .holding x ∉ s.facts) := by
    rw [← held_isEmpty_iff accepted within, State.isTrue]
    by_cases free : .handEmpty ∈ s.facts <;>
      cases (Arrangement.ofFacts s.facts).held.isEmpty <;> simp [free]
  have placed : ∀ x, ((Arrangement.ofFacts s.facts).links.lookup x).isSome = true ↔
      ∃ y, .on x y ∈ s.facts := by
    intro x
    simp [List.lookup_isSome_iff, mem_links_iff accepted within]
  simp only [heldViolations, List.append_eq_nil_iff, List.flatMap_eq_nil_iff, ite_eq_right_iff,
    ite_eq_left_iff, reduceCtorEq, imp_false, Classical.not_not, one, hand, placed, not_exists,
    mem_held_iff accepted within, occupants_isEmpty_iff accepted within, and_assoc]

theorem placedViolations_eq_nil_iff :
    placedViolations (Arrangement.ofFacts s.facts) = [] ↔
      ∀ x a b, .on x a ∈ s.facts → .on x b ∈ s.facts → a = b := by
  simp only [placedViolations, List.map_eq_nil_iff, List.filter_eq_nil_iff, decide_eq_true_eq,
    Nat.not_lt, supportCount_le_iff accepted within, ← OrderedSet.mem_def, OrderedSet.mem_ofList,
    List.mem_map, Prod.exists, mem_links_iff accepted within]
  constructor
  · intro counted x a b ha hb
    exact counted x ⟨x, a, ha, rfl⟩ a b ha hb
  · intro same x _
    exact same x

theorem memberViolations_eq_nil_iff {m : Member} :
    memberViolations (Arrangement.ofFacts s.facts) s m = [] ↔ (m.category.tracksClear = true →
      (∀ a b, .on a m.name ∈ s.facts → .on b m.name ∈ s.facts → a = b) ∧
      (.clear m.name ∈ s.facts ↔ (∀ x, .on x m.name ∉ s.facts) ∧ .holding m.name ∉ s.facts)) := by
  have clear : (s.isTrue (.clear m.name) == (Arrangement.ofFacts s.facts).isClear m.name) = true ↔
      (.clear m.name ∈ s.facts ↔ (∀ x, .on x m.name ∉ s.facts) ∧ .holding m.name ∉ s.facts) := by
    rw [← isClear_iff accepted within, State.isTrue]
    by_cases isClear : .clear m.name ∈ s.facts <;>
      cases (Arrangement.ofFacts s.facts).isClear m.name <;> simp [isClear]
  simp only [memberViolations, ite_eq_right_iff, List.append_eq_nil_iff, reduceCtorEq, imp_false,
    Nat.not_lt, occupants_length_le_iff accepted within, clear, ite_eq_left_iff, Classical.not_not]

end Violations

theorem violations_eq_nil_iff (accepted : schema.Accepted)
    (within : ∀ f ∈ s.facts, f ∈ schema.scope) : schema.violations s = [] ↔ schema.Sane s := by
  simp only [violations, List.append_eq_nil_iff, List.flatMap_eq_nil_iff,
    heldViolations_eq_nil_iff accepted within, placedViolations_eq_nil_iff accepted within,
    memberViolations_eq_nil_iff accepted within]
  constructor
  · rintro ⟨⟨⟨oneHeld, hand, held⟩, oneSupport⟩, members⟩
    exact ⟨within, oneHeld, hand, fun x y hx => (held x hx).1 y, fun x y hy => (held y hy).2 x,
      oneSupport, fun m hm tracks => (members m hm tracks).1,
      fun m hm tracks => (members m hm tracks).2⟩
  · intro sane
    exact ⟨⟨⟨sane.oneHeld, sane.hand, fun x hx => ⟨fun y => sane.heldFree x y hx,
      fun y => sane.heldBare y x hx⟩⟩, sane.oneSupport⟩,
      fun m hm tracks => ⟨sane.oneOccupant m hm tracks, sane.clear m hm tracks⟩⟩

theorem lacksArgument_of_mem_fluents {members : List Member} {f : Fluent}
    (inScope : f ∈ fluents members) : lacksArgument f = false := by
  rcases mem_fluents_iff.mp inScope with
    ⟨_, _, _, rfl⟩ | rfl | ⟨_, _, _, rfl⟩ | ⟨_, _, _, _, _, rfl⟩ <;> rfl

/-- Nothing is found wrong with a state whose facts are in scope exactly if it is sane. -/
theorem inspect_eq_nil_iff (accepted : schema.Accepted)
    (within : ∀ f ∈ s.facts, f ∈ schema.scope) : schema.inspect s = .ok [] ↔ schema.Sane s := by
  have complete : s.facts.toList.any lacksArgument = false := by
    refine List.any_eq_false.mpr (fun f member => Bool.not_eq_true _ ▸ ?_)
    have inScope := within f member
    rw [accepted.scope_eq] at inScope
    exact lacksArgument_of_mem_fluents inScope
  have none : schema.problems s = [] ↔ schema.violations s = [] := by
    rw [problems, sorted, ← List.length_eq_zero_iff, List.length_mergeSort, List.length_map,
      List.length_eq_zero_iff]
  rw [inspect, complete, ← violations_eq_nil_iff accepted within, ← none]
  exact ⟨Except.ok.inj, congrArg Except.ok⟩

/-- A state within the scope of an accepted schema passes the checks exactly if it is sane. -/
theorem verify_eq_ok_iff (accepted : schema.Accepted) (sameScope : s.scope = schema.scope)
    (step : Value) (action : Option Action) :
    schema.verify s step action = .ok () ↔ schema.Sane s := by
  have strays : s.strays.isEmpty = true ↔ ∀ f ∈ s.facts, f ∈ schema.scope := by
    simp [State.strays, OrderedSet.isEmpty, OrderedSet.filter, sameScope, OrderedSet.mem_def]
  simp only [verify, State.checkScope, bind, Except.bind, pure, Except.pure]
  by_cases within : ∀ f ∈ s.facts, f ∈ schema.scope
  · rw [if_pos (strays.mpr within), ← violations_eq_nil_iff accepted within, ← List.isEmpty_iff]
    cases (schema.violations s).isEmpty with
    | true => simp
    | false => simp [throw, throwThe, MonadExceptOf.throw]
  · rw [if_neg (fun none => within (strays.mp none))]
    constructor
    · intro passes
      cases passes
    · intro sane
      exact absurd sane.within within

/-- No transition along a walk from a sane state is refused. -/
theorem Sane.advance (sane : schema.Sane s) (accepted : schema.Accepted)
    (sameScope : s.scope = schema.scope) {choice : Choice} (allowed : schema.Allows s choice)
    (checked : Bool) (step : Value) :
    schema.advance checked s choice step = .ok (s.after choice) := by
  cases checked with
  | false => rfl
  | true =>
      cases choice with
      | none => rfl
      | some a =>
          have passes := (verify_eq_ok_iff accepted (sameScope ▸ State.after_scope s (some a))
            (nextStep step) (some a)).mpr (sane.after accepted allowed)
          simp [Schema.advance, checkExecutable, checkSuccessor, allowed.2, passes, bind,
            Except.bind, pure, Except.pure]

end Schema

end StackingPlanner
