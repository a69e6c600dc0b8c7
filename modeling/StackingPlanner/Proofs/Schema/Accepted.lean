import StackingPlanner.Schema.Basic
import StackingPlanner.Proofs.Except

/-!
# Accepted declarations

What the checks of a declaration guarantee of the schema that is derived from
it: the objects have different names and are listed in their order, no movable
object carries an unbounded number of others, and the actions are listed in the
order of operator and arguments, each of them once.
-/

namespace StackingPlanner

theorem DomainObject.eq_of_words {o p : DomainObject} (same : o.words = p.words) : o = p := by
  cases o
  cases p
  simp_all [words]

instance : StrictOrder DomainObject :=
  StrictOrder.ofKey DomainObject.words DomainObject.eq_of_words Iff.rfl

theorem sorted_pairwise {α : Type} [LT α] [DecidableLT α] [StrictOrder α] (l : List α) :
    (sorted l).Pairwise (fun a b => ¬ b < a) := by
  have ordered := @List.pairwise_mergeSort α (fun a b => !decide (b < a))
    (by
      intro a b c hab hbc
      simp only [Bool.not_eq_true', decide_eq_false_iff_not] at hab hbc ⊢
      intro hca
      by_cases hcb : b < c
      · exact hab (StrictOrder.trans hcb hca)
      · exact hab (StrictOrder.connected hcb hbc ▸ hca))
    (by
      intro a b
      simp only [Bool.or_eq_true, Bool.not_eq_true', decide_eq_false_iff_not]
      by_cases hba : b < a
      · exact .inr (fun hab => StrictOrder.irrefl a (StrictOrder.trans hab hba))
      · exact .inl hba) l
  exact ordered.imp (by simp)

namespace Action

def words (a : Action) : List String := a.operator :: a.args

end Action

namespace Schema

/-- What is known of a schema that was derived from an accepted declaration. -/
structure Accepted (schema : Schema) : Prop where
  ascending : schema.members.Pairwise (fun m n => m.name < n.name)
  scope_eq : schema.scope = fluents schema.members
  actions_eq : schema.actions = groundActions schema.members
  bounded : ∀ m ∈ schema.members, m.category.movable = true →
    m.category.capacity = .unbounded → m.category.allowed.isEmpty = true

def CameFrom (c : Category) (d : CategoryDeclaration) : Prop :=
  ∃ capacity, c = ⟨d.name, capacity, d.allowed, d.movable.counts, d.movable.truth?.isSome⟩ ∧
    (d.movable.counts && capacity = .unbounded && !d.allowed.isEmpty) = false

/-- Every accepted category was accepted before or comes from one of the declarations. -/
theorem cameFrom_of_acceptCategories {before categories : List Category}
    {declared : List CategoryDeclaration}
    (accepted : acceptCategories before declared = .ok categories) :
    ∀ c ∈ categories, c ∈ before ∨ ∃ d ∈ declared, CameFrom c d := by
  induction declared generalizing before with
  | nil =>
      cases accepted
      exact fun c earlier => .inl earlier
  | cons d rest ih =>
      unfold acceptCategories at accepted
      split at accepted
      · cases accepted
      · split at accepted
        · cases accepted
        · rename_i capacity _
          dsimp only at accepted
          split at accepted
          · cases accepted
          · rename_i allowed
            intro c member
            rcases ih accepted c member with member | ⟨other, later, came⟩
            · rcases List.mem_append.mp member with earlier | here
              · exact .inl earlier
              · have first := List.mem_singleton.mp here
                exact .inr ⟨d, List.mem_cons_self, capacity, first, Bool.eq_false_iff.mpr allowed⟩
            · exact .inr ⟨other, List.mem_cons_of_mem _ later, came⟩

/-- Resolved objects keep their names, which are new, and have accepted categories. -/
theorem resolve_names {categories : List Category} {before members : List Member}
    {objects : List DomainObject} (resolved : resolve categories before objects = .ok members) :
    members.map (·.name) = objects.map (·.name) ∧
      (∀ m ∈ members, m.category ∈ categories ∧ ∀ b ∈ before, b.name ≠ m.name) ∧
      members.Pairwise (fun m n => m.name ≠ n.name) := by
  induction objects generalizing before members with
  | nil =>
      cases resolved
      exact ⟨rfl, by simp, .nil⟩
  | cons o rest ih =>
      unfold resolve at resolved
      split at resolved
      · cases resolved
      · rename_i new
        split at resolved
        · cases resolved
        · rename_i c found
          split at resolved
          · rename_i others inner
            cases resolved
            obtain ⟨names, known, distinct⟩ := ih inner
            refine ⟨by simp [names], ?_, ?_⟩
            · intro m member
              rcases List.mem_cons.mp member with rfl | member
              · refine ⟨List.mem_of_find?_eq_some found, fun b earlier same => new ?_⟩
                exact List.any_eq_true.mpr ⟨b, earlier, by simpa using same⟩
              · exact ⟨(known m member).1, fun b earlier =>
                  (known m member).2 b (List.mem_append_left _ earlier)⟩
            · refine List.pairwise_cons.mpr ⟨fun m member => ?_, distinct⟩
              exact (known m member).2 ⟨o.name, c⟩ (by simp)
          · cases resolved

/-- An object is resolved exactly if it is declared under a category that is found. -/
theorem mem_resolve_iff {categories : List Category} {before members : List Member}
    {objects : List DomainObject} (resolved : resolve categories before objects = .ok members)
    {m : Member} :
    m ∈ members ↔ ∃ o ∈ objects, o.name = m.name ∧
      categories.find? (·.name = o.category) = some m.category := by
  induction objects generalizing before members with
  | nil =>
      cases resolved
      simp
  | cons o rest ih =>
      unfold resolve at resolved
      split at resolved
      · cases resolved
      · split at resolved
        · cases resolved
        · rename_i c found
          split at resolved
          · rename_i others inner
            cases resolved
            simp only [List.mem_cons, ih inner, or_and_right, exists_or, exists_eq_left]
            apply or_congr_left
            rw [found, Option.some.injEq]
            constructor
            · rintro rfl
              exact ⟨rfl, rfl⟩
            · rintro ⟨sameName, sameCategory⟩
              rw [sameName, sameCategory]
          · cases resolved

theorem name_lt_of_not_lt {o p : DomainObject} (ordered : ¬ p < o) (differ : o.name ≠ p.name) :
    o.name < p.name := by
  by_cases below : o.name < p.name
  · exact below
  · by_cases above : p.name < o.name
    · exact absurd (List.cons_lt_cons_iff.mpr (.inl above)) ordered
    · exact absurd (StrictOrder.connected below above) differ

theorem ascending_of_resolve {categories : List Category} {members : List Member}
    {objects : List DomainObject}
    (resolved : resolve categories [] (sorted objects) = .ok members) :
    members.Pairwise (fun m n => m.name < n.name) := by
  obtain ⟨names, _, distinct⟩ := resolve_names resolved
  have ordered := sorted_pairwise objects
  have differ : (sorted objects).Pairwise (fun o p => o.name ≠ p.name) := by
    rw [← List.pairwise_map (f := DomainObject.name) (R := (· ≠ ·)), ← names, List.pairwise_map]
    exact distinct
  have ascending := (ordered.and differ).imp (fun both => name_lt_of_not_lt both.1 both.2)
  rw [← List.pairwise_map (f := DomainObject.name) (R := (· < ·)), ← names,
    List.pairwise_map] at ascending
  exact ascending

/-- A declaration has a schema exactly if each of its checks finds nothing. -/
theorem build_eq_ok_iff {objects : List DomainObject} {declared : List CategoryDeclaration}
    {schema : Schema} : build objects declared = .ok schema ↔
    ∃ categories members, acceptCategories [] declared = .ok categories ∧
      danglingOccupant? categories = none ∧
        resolve categories [] (sorted objects) = .ok members ∧
          contradictoryAction? (groundActions members) = none ∧
            schema = ofMembers categories members := by
  constructor
  · intro built
    obtain ⟨categories, accepted, built⟩ := Except.exists_of_bind_eq_ok built
    dsimp only at built
    split at built
    · cases built
    · rename_i known
      obtain ⟨members, resolved, built⟩ := Except.exists_of_bind_eq_ok built
      split at built
      · cases built
      · rename_i consistent
        cases built
        exact ⟨categories, members, accepted, known, resolved, consistent, rfl⟩
  · rintro ⟨categories, members, accepted, known, resolved, consistent, rfl⟩
    have consistent : contradictoryAction? (ofMembers categories members).actions = none :=
      consistent
    simp only [build, accepted, bind, Except.bind, known, resolved, consistent, pure, Except.pure]

theorem ofMembers_of_build {objects : List DomainObject} {declared : List CategoryDeclaration}
    {schema : Schema} (built : build objects declared = .ok schema) :
    ∃ categories members, acceptCategories [] declared = .ok categories ∧
      resolve categories [] (sorted objects) = .ok members ∧
      schema = ofMembers categories members := by
  obtain ⟨categories, members, accepted, _, resolved, _, same⟩ := build_eq_ok_iff.mp built
  exact ⟨categories, members, accepted, resolved, same⟩

theorem cameFrom_of_build {objects : List DomainObject} {declared : List CategoryDeclaration}
    {schema : Schema} (built : build objects declared = .ok schema) :
    ∀ m ∈ schema.members, ∃ d ∈ declared, CameFrom m.category d := by
  obtain ⟨categories, members, accepted, resolved, rfl⟩ := ofMembers_of_build built
  obtain ⟨_, known, _⟩ := resolve_names resolved
  intro m member
  rcases cameFrom_of_acceptCategories accepted m.category (known m member).1 with before | came
  · cases before
  · exact came

/-- The schema of every declaration that passes its checks is an accepted one. -/
theorem accepted_of_build {objects : List DomainObject} {declared : List CategoryDeclaration}
    {schema : Schema} (built : build objects declared = .ok schema) : schema.Accepted := by
  have came := cameFrom_of_build built
  obtain ⟨categories, members, accepted, resolved, rfl⟩ := ofMembers_of_build built
  refine ⟨ascending_of_resolve resolved, rfl, rfl, fun m member movable unbounded => ?_⟩
  obtain ⟨d, _, capacity, same, allowed⟩ := came m member
  rw [same] at movable unbounded ⊢
  change d.movable.counts = true at movable
  change capacity = .unbounded at unbounded
  simpa [movable, unbounded] using allowed

/-- Operators move objects to and from all objects if their categories declare truth values. -/
theorem serves_of_build {objects : List DomainObject} {declared : List CategoryDeclaration}
    {schema : Schema} (built : build objects declared = .ok schema)
    (typed : ∀ d ∈ declared, d.movable.truth?.isSome = true) :
    ∀ m ∈ schema.members, m.category.serves = true := by
  intro m member
  obtain ⟨d, declares, _, same, _⟩ := cameFrom_of_build built m member
  rw [same]
  exact typed d declares

theorem mem_placements_iff {members : List Member} {p : Member × Member} :
    p ∈ placements members ↔ p.1 ∈ members ∧ p.2 ∈ members ∧ p.1.mayRestOn p.2 = true := by
  obtain ⟨x, y⟩ := p
  simp only [placements, List.mem_flatMap, List.mem_map, List.mem_filter, Prod.mk.injEq]
  constructor
  · rintro ⟨_, hx, _, ⟨hy, may⟩, rfl, rfl⟩
    exact ⟨hx, hy, may⟩
  · rintro ⟨hx, hy, may⟩
    exact ⟨x, hx, y, ⟨hy, may⟩, rfl, rfl⟩

/-- The actions are the operators applied to the placements that suit them. -/
theorem mem_groundActions_iff {members : List Member} {a : Action} :
    a ∈ groundActions members ↔ ∃ op x y, x ∈ members ∧ y ∈ members ∧
      x.mayRestOn y = true ∧ suits op y = true ∧ a = op.ground x y := by
  simp only [groundActions, List.mem_flatMap, List.mem_map, List.mem_filter,
    mem_placements_iff, Prod.exists]
  constructor
  · rintro ⟨op, _, x, y, ⟨⟨hx, hy, may⟩, suit⟩, rfl⟩
    exact ⟨op, x, y, hx, hy, may, suit, rfl⟩
  · rintro ⟨op, x, y, hx, hy, may, suit, rfl⟩
    exact ⟨op, by cases op <;> decide, x, y, ⟨⟨hx, hy, may⟩, suit⟩, rfl⟩

section Ground

variable {schema : Schema} (accepted : schema.Accepted)

include accepted

/-- An action is an operator on an object and a support that suits it and may carry the object. -/
theorem Accepted.exists_ground {a : Action} (member : a ∈ schema.actions) :
    ∃ op x y, x ∈ schema.members ∧ y ∈ schema.members ∧ x.mayRestOn y = true ∧
      suits op y = true ∧ a = op.ground x y := by
  rw [accepted.actions_eq] at member
  exact mem_groundActions_iff.mp member

theorem Accepted.ground_mem_actions {op : Operator} {x y : Member} (hx : x ∈ schema.members)
    (hy : y ∈ schema.members) (may : x.mayRestOn y = true) (suit : suits op y = true) :
    op.ground x y ∈ schema.actions := by
  rw [accepted.actions_eq, mem_groundActions_iff]
  exact ⟨op, x, y, hx, hy, may, suit, rfl⟩

end Ground

theorem placements_pairwise {members : List Member}
    (ascending : members.Pairwise (fun m n => m.name < n.name)) :
    (placements members).Pairwise (fun p q => [p.1.name, p.2.name] < [q.1.name, q.2.name]) := by
  refine List.pairwise_flatMap.mpr ⟨fun x _ => ?_, ?_⟩
  · rw [List.pairwise_map]
    refine (ascending.filter _).imp (fun below => ?_)
    exact List.cons_lt_cons_iff.mpr (.inr ⟨rfl, List.cons_lt_cons_iff.mpr (.inl below)⟩)
  · refine ascending.imp (fun below p inFirst q inSecond => ?_)
    obtain ⟨_, _, rfl⟩ := List.mem_map.mp inFirst
    obtain ⟨_, _, rfl⟩ := List.mem_map.mp inSecond
    exact List.cons_lt_cons_iff.mpr (.inl below)

theorem operators_pairwise : Operator.all.Pairwise (fun op other => op.name < other.name) := by
  decide

/-- The actions are listed in the order of operator and arguments, each of them once. -/
theorem Accepted.actions_pairwise {schema : Schema} (accepted : schema.Accepted) :
    schema.actions.Pairwise (fun a b => a.words < b.words) := by
  rw [accepted.actions_eq]
  refine List.pairwise_flatMap.mpr ⟨fun op _ => ?_, ?_⟩
  · rw [List.pairwise_map]
    refine ((placements_pairwise accepted.ascending).filter _).imp (fun below => ?_)
    exact List.cons_lt_cons_iff.mpr (.inr ⟨rfl, below⟩)
  · refine operators_pairwise.imp (fun below a inFirst b inSecond => ?_)
    obtain ⟨_, _, rfl⟩ := List.mem_map.mp inFirst
    obtain ⟨_, _, rfl⟩ := List.mem_map.mp inSecond
    exact List.cons_lt_cons_iff.mpr (.inl below)

theorem Accepted.member_eq {schema : Schema} (accepted : schema.Accepted) {m n : Member}
    (hm : m ∈ schema.members) (hn : n ∈ schema.members) (same : m.name = n.name) : m = n := by
  have apart : ∀ {m n : Member}, m.name < n.name → m.name ≠ n.name := fun below equal =>
    StrictOrder.irrefl _ (equal ▸ below)
  refine List.Pairwise.forall_of_forall_of_flip (R := fun m n => m.name = n.name → m = n)
    (fun _ _ _ => rfl) ?_ ?_ hm hn same
  · exact accepted.ascending.imp (fun below equal => absurd equal (apart below))
  · exact accepted.ascending.imp (fun below equal => absurd equal.symm (apart below))

theorem member?_eq_some {schema : Schema} (accepted : schema.Accepted) {m : Member}
    (member : m ∈ schema.members) : schema.member? m.name = some m := by
  cases found : schema.member? m.name with
  | none =>
      have other := List.find?_eq_none.mp found m member
      simp at other
  | some n =>
      have same : n.name = m.name := by simpa using List.find?_some found
      rw [accepted.member_eq (List.mem_of_find?_eq_some found) member same]

theorem mem_of_member {schema : Schema} {name : String} {m : Member}
    (found : schema.member name = .ok m) : m ∈ schema.members ∧ m.name = name := by
  unfold member at found
  split at found
  · rename_i n known
    cases found
    exact ⟨List.mem_of_find?_eq_some known, by simpa using List.find?_some known⟩
  · cases found

end Schema

end StackingPlanner
