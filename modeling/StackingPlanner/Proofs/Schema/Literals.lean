import StackingPlanner.Proofs.Schema.Verify

/-!
# What the checks of a list of literals find

A list of literals passes its checks if all of its fluents are in scope, if it
does not contain a literal together with its contrary, and if every placing and
holding that it demands can be brought about by some action.  Of an accepted
schema it is known which these are: an object can be placed where it may rest,
and it can be taken into the hand if there is a place where it may rest.
-/

namespace StackingPlanner

/-- A list contains no literal together with its contrary if no fluent both holds and fails. -/
theorem Literal.clash?_eq_none_iff {literals : List Literal} :
    clash? literals = none ↔ ∀ f, .holds f ∈ literals → .fails f ∉ literals := by
  simp only [clash?, List.find?_eq_none, ← OrderedSet.mem_def, OrderedSet.mem_ofList,
    Bool.and_eq_true, decide_eq_true_eq, not_and]
  constructor
  · intro none f holds
    exact none (.holds f) holds rfl
  · rintro none ⟨f, positive⟩ listed isPositive
    cases isPositive
    exact none f listed

namespace Operator

variable {x y : Member} {a b : String}

theorem holds_on_mem_effects_iff {op : Operator} :
    .holds (.on a b) ∈ (op.ground x y).effects ↔
      op.places = true ∧ a = x.name ∧ b = y.name := by
  simp only [ground, OrderedSet.mem_ofList, effects]
  cases op.places <;>
    simp [mem_clearLiteral_iff, Literal.holds, Literal.fails, Fluent.on, Fluent.holding,
      Fluent.clear, Fluent.handEmpty]

theorem holds_holding_mem_effects_iff {op : Operator} :
    .holds (.holding a) ∈ (op.ground x y).effects ↔ op.places = false ∧ a = x.name := by
  simp only [ground, OrderedSet.mem_ofList, effects]
  cases op.places <;>
    simp [mem_clearLiteral_iff, Literal.holds, Literal.fails, Fluent.on, Fluent.holding,
      Fluent.clear, Fluent.handEmpty]

end Operator

namespace Schema

variable {schema : Schema}

def Establishes (schema : Schema) (f : Fluent) : Prop :=
  ∃ a ∈ schema.actions, .holds f ∈ a.effects

/-! ## Fluents in scope -/

/-- The arguments of a fluent in scope are declared, and it has as many as its name demands. -/
theorem Accepted.known_of_mem_scope (accepted : schema.Accepted) {f : Fluent}
    (inScope : f ∈ schema.scope) :
    (∀ arg ∈ f.args, (schema.member? arg).isSome = true) ∧
      arity? f.name = some f.args.length := by
  have known : ∀ m ∈ schema.members, (schema.member? m.name).isSome = true := by
    intro m member
    rw [member?_eq_some accepted member, Option.isSome_some]
  rw [accepted.scope_eq, mem_fluents_iff] at inScope
  rcases inScope with
    ⟨m, hm, _, rfl⟩ | rfl | ⟨m, hm, _, rfl⟩ | ⟨x, hx, y, hy, _, rfl⟩
  · exact ⟨by simp [Fluent.clear, known m hm], rfl⟩
  · exact ⟨by simp [Fluent.handEmpty], rfl⟩
  · exact ⟨by simp [Fluent.holding, known m hm], rfl⟩
  · exact ⟨by simp [Fluent.on, known x hx, known y hy], rfl⟩

/-- A literal passes its check exactly if its fluent is in scope. -/
theorem checkLiteral_eq_ok_iff (accepted : schema.Accepted) {l : Literal} :
    schema.checkLiteral l = .ok () ↔ l.fluent ∈ schema.scope := by
  unfold checkLiteral
  constructor
  · intro passes
    split at passes
    · cases passes
    · split at passes
      · cases passes
      · split at passes
        · assumption
        · cases passes
  · intro inScope
    obtain ⟨known, arity⟩ := accepted.known_of_mem_scope inScope
    have found : l.fluent.args.find? (fun arg => (schema.member? arg).isNone) = none := by
      apply List.find?_eq_none.mpr
      intro arg member
      rw [Option.isNone_iff_eq_none, ← Option.not_isSome_iff_eq_none, known arg member]
      decide
    simp [found, arity, inScope]

theorem requireOperators_eq_ok_iff {label : String} {literals : List Literal} :
    schema.requireOperators label literals = .ok () ↔
      ∀ l ∈ literals, placesOrHolds l = true → schema.Establishes l.fluent := by
  have established : ∀ f, (schema.establishers f).isEmpty = false ↔ schema.Establishes f := by
    intro f
    simp [establishers, Establishes, List.isEmpty_eq_false_iff]
  unfold requireOperators
  split
  · rename_i l found
    obtain ⟨fails, before, after, split, _⟩ := List.find?_eq_some_iff_append.mp found
    rw [Bool.and_eq_true] at fails
    constructor
    · intro passes
      cases passes
    · intro each
      have listed : l ∈ literals := by simp [split]
      have none := (established l.fluent).mpr (each l listed fails.1)
      cases fails.2.symm.trans none
  · rename_i found
    refine ⟨fun _ l listed demanded => ?_, fun _ => rfl⟩
    have some := List.find?_eq_none.mp found l listed
    rw [demanded, Bool.true_and, Bool.not_eq_true] at some
    exact (established l.fluent).mp some

/--
A list of literals passes its checks if its fluents are in scope, it does not
contradict itself, and actions bring about the placings and holdings in it.
-/
theorem checkLiterals_eq_ok_iff (accepted : schema.Accepted) {label : String}
    {literals : List Literal} :
    schema.checkLiterals label literals = .ok () ↔
      (∀ l ∈ literals, l.fluent ∈ schema.scope) ∧
        (∀ f, .holds f ∈ literals → .fails f ∉ literals) ∧
          ∀ l ∈ literals, placesOrHolds l = true → schema.Establishes l.fluent := by
  have checked : literals.forM schema.checkLiteral = .ok () ↔
      ∀ l ∈ literals, l.fluent ∈ schema.scope := by
    simp only [Except.forM_eq_ok_iff, checkLiteral_eq_ok_iff accepted]
  have required : schema.requireOperators label literals = .ok () ↔ _ := requireOperators_eq_ok_iff
  rw [← checked, ← Literal.clash?_eq_none_iff, ← required]
  constructor
  · intro passes
    obtain ⟨_, each, passes⟩ := Except.exists_of_bind_eq_ok passes
    refine ⟨each, ?_⟩
    cases clash : Literal.clash? literals with
    | some l =>
        rw [clash] at passes
        cases passes
    | none =>
        rw [clash] at passes
        exact ⟨rfl, passes⟩
  · rintro ⟨each, consistent, passes⟩
    rw [checkLiterals, each, consistent]
    exact passes

/-! ## What actions bring about -/

/-- One object can support another exactly if a fluent in scope says that it does. -/
theorem canSupport_eq_true_iff (accepted : schema.Accepted) {x y : String} :
    schema.canSupport y x = .ok true ↔ .on x y ∈ schema.scope := by
  rw [accepted.scope_eq, on_mem_fluents_iff]
  constructor
  · intro supports
    unfold canSupport at supports
    split at supports
    · cases supports
    · split at supports
      · cases supports
      · rename_i m occupant
        split at supports
        · cases supports
        · cases support : schema.member y with
          | error failure =>
              rw [support] at supports
              cases supports
          | ok n =>
              rw [support] at supports
              obtain ⟨hm, rfl⟩ := mem_of_member occupant
              obtain ⟨hn, rfl⟩ := mem_of_member support
              exact ⟨m, hm, n, hn, Except.ok.inj supports, rfl, rfl⟩
  · rintro ⟨m, hm, n, hn, may, rfl, rfl⟩
    obtain ⟨differ, movable, -⟩ := mayRestOn_iff.mp may
    simp [canSupport, member, member?_eq_some accepted hm, member?_eq_some accepted hn,
      differ.symm, movable, may, Except.map]

theorem exists_suits {y : Member} (serves : y.category.serves = true) (places : Bool) :
    ∃ op : Operator, op.places = places ∧ suits op y = true := by
  cases movable : y.category.movable with
  | false =>
      cases places with
      | false => exact ⟨.pickUp, rfl, by simp [suits, serves, movable, Operator.supportMovable]⟩
      | true => exact ⟨.putDown, rfl, by simp [suits, serves, movable, Operator.supportMovable]⟩
  | true =>
      cases places with
      | false => exact ⟨.unstack, rfl, by simp [suits, serves, movable, Operator.supportMovable]⟩
      | true => exact ⟨.stack, rfl, by simp [suits, serves, movable, Operator.supportMovable]⟩

section Serving

variable (accepted : schema.Accepted)

include accepted

/-- An object comes into the hand only if there is a place where it may rest. -/
theorem Establishes.canSupport {x : String} (established : schema.Establishes (.holding x)) :
    ∃ y, schema.canSupport y x = .ok true := by
  obtain ⟨a, member, holds⟩ := established
  obtain ⟨op, m, n, hm, hn, may, _, rfl⟩ := accepted.exists_ground member
  obtain ⟨_, rfl⟩ := Operator.holds_holding_mem_effects_iff.mp holds
  refine ⟨n.name, (canSupport_eq_true_iff accepted).mpr ?_⟩
  rw [accepted.scope_eq, on_mem_fluents_iff]
  exact ⟨m, hm, n, hn, may, rfl, rfl⟩

variable (serves : ∀ m ∈ schema.members, m.category.serves = true) {x y : String}

include serves

theorem establishes_on (supports : schema.canSupport y x = .ok true) :
    schema.Establishes (.on x y) := by
  rw [canSupport_eq_true_iff accepted, accepted.scope_eq, on_mem_fluents_iff] at supports
  obtain ⟨m, hm, n, hn, may, rfl, rfl⟩ := supports
  obtain ⟨op, places, suit⟩ := exists_suits (serves n hn) true
  exact ⟨op.ground m n, accepted.ground_mem_actions hm hn may suit,
    Operator.holds_on_mem_effects_iff.mpr ⟨places, rfl, rfl⟩⟩

/-- An object that may rest somewhere can be taken into the hand. -/
theorem establishes_holding (supports : schema.canSupport y x = .ok true) :
    schema.Establishes (.holding x) := by
  rw [canSupport_eq_true_iff accepted, accepted.scope_eq, on_mem_fluents_iff] at supports
  obtain ⟨m, hm, n, hn, may, rfl, rfl⟩ := supports
  obtain ⟨op, takes, suit⟩ := exists_suits (serves n hn) false
  exact ⟨op.ground m n, accepted.ground_mem_actions hm hn may suit,
    Operator.holds_holding_mem_effects_iff.mpr ⟨takes, rfl⟩⟩

end Serving

end Schema

end StackingPlanner
