import StackingPlanner.Proofs.Schema.Described
import Mathlib.Data.List.Perm.Basic

/-!
# The order of a declaration does not matter

Each category is accepted by itself, provided that its name is new, and objects
are put in order before their categories are found.  So a declaration is
accepted in every order or in none, and the schemas that are derived from it
differ at most in the order in which they list their categories.  Of a list of
literals it only matters which literals are in it.
-/

namespace StackingPlanner

theorem sorted_eq_of_perm {α : Type} [LT α] [DecidableLT α] [StrictOrder α] {l m : List α}
    (perm : l.Perm m) : sorted l = sorted m := by
  have same : (sorted l).Perm (sorted m) :=
    (List.mergeSort_perm l _).trans (perm.trans (List.mergeSort_perm m _).symm)
  exact same.eq_of_pairwise (fun _ _ _ _ notAbove notBelow =>
    StrictOrder.connected notBelow notAbove) (sorted_pairwise l) (sorted_pairwise m)

/-! ## Categories -/

/-- The category that is accepted for a declaration, unless its name is taken already. -/
def CategoryDeclaration.category? (d : CategoryDeclaration) : Option Category :=
  match Capacity.ofValue? d.capacity with
  | none => none
  | some capacity =>
      if d.movable.counts && capacity = .unbounded && !d.allowed.isEmpty then none
      else some ⟨d.name, capacity, d.allowed, d.movable.counts, d.movable.truth?.isSome⟩

theorem CategoryDeclaration.name_of_category? {d : CategoryDeclaration} {c : Category}
    (accepts : d.category? = some c) : c.name = d.name := by
  unfold category? at accepts
  split at accepts
  · cases accepts
  · split at accepts
    · cases accepts
    · cases accepts
      rfl

namespace Schema

variable {declared redeclared : List CategoryDeclaration} {categories others : List Category}
  {objects reordered : List DomainObject} {members : List Member} {schema : Schema}

def Distinct (categories : List Category) : Prop :=
  categories.Pairwise (fun c d => c.name ≠ d.name)

theorem acceptCategories_cons_eq_ok_iff {before : List Category} {d : CategoryDeclaration} :
    acceptCategories before (d :: declared) = .ok categories ↔
      ∃ c, d.category? = some c ∧ (∀ b ∈ before, b.name ≠ c.name) ∧
        acceptCategories (before ++ [c]) declared = .ok categories := by
  have taken : before.any (·.name = d.name) = true ↔ ∃ b ∈ before, b.name = d.name := by
    simp
  rw [acceptCategories, CategoryDeclaration.category?]
  by_cases known : before.any (·.name = d.name) = true
  · rw [if_pos known]
    obtain ⟨b, earlier, same⟩ := taken.mp known
    constructor
    · intro accepted
      cases accepted
    · rintro ⟨c, accepts, new, _⟩
      exact absurd (same.trans (CategoryDeclaration.name_of_category? accepts).symm) (new b earlier)
  · rw [if_neg known]
    have new : ∀ b ∈ before, b.name ≠ d.name := fun b earlier same =>
      known (taken.mpr ⟨b, earlier, same⟩)
    cases Capacity.ofValue? d.capacity with
    | none => simp
    | some capacity =>
        dsimp only
        split
        · simp
        · constructor
          · intro accepted
            exact ⟨_, rfl, new, accepted⟩
          · rintro ⟨c, same, _, accepted⟩
            cases same
            exact accepted

/-- Declarations are accepted if each of their categories is and if these have different names. -/
theorem acceptCategories_eq_ok_iff {before : List Category} :
    acceptCategories before declared = .ok categories ↔
      ∃ later, categories = before ++ later ∧
        List.Forall₂ (fun d c => d.category? = some c) declared later ∧ Distinct later ∧
          ∀ b ∈ before, ∀ c ∈ later, b.name ≠ c.name := by
  induction declared generalizing before with
  | nil =>
      rw [acceptCategories, Except.ok.injEq]
      constructor
      · rintro rfl
        exact ⟨[], by simp, .nil, .nil, by simp⟩
      · rintro ⟨later, rfl, accepts, -, -⟩
        cases accepts
        exact (List.append_nil before).symm
  | cons d rest ih =>
      rw [acceptCategories_cons_eq_ok_iff]
      constructor
      · rintro ⟨c, accepts, new, accepted⟩
        obtain ⟨later, rfl, each, distinct, apart⟩ := ih.mp accepted
        refine ⟨c :: later, List.append_assoc before [c] later, .cons accepts each, ?_, ?_⟩
        · exact List.pairwise_cons.mpr ⟨fun k member => apart c (by simp) k member, distinct⟩
        · intro b earlier k member
          rcases List.mem_cons.mp member with rfl | member
          · exact new b earlier
          · exact apart b (List.mem_append_left _ earlier) k member
      · rintro ⟨_, rfl, accepts, distinct, apart⟩
        cases accepts with
        | @cons _ c _ later accepts each =>
            obtain ⟨first, distinct⟩ := List.pairwise_cons.mp distinct
            refine ⟨c, accepts, fun b earlier => apart b earlier c List.mem_cons_self, ?_⟩
            refine ih.mpr ⟨later, by simp, each, distinct, ?_⟩
            intro b earlier k member
            rcases List.mem_append.mp earlier with earlier | here
            · exact apart b earlier k (List.mem_cons_of_mem c member)
            · rw [List.mem_singleton.mp here]
              exact first k member

/-- Declarations are accepted in every order, and then the same categories are. -/
theorem acceptCategories_perm (perm : redeclared.Perm declared)
    (accepted : acceptCategories [] declared = .ok categories) :
    ∃ others, acceptCategories [] redeclared = .ok others ∧ others.Perm categories := by
  obtain ⟨_, rfl, each, distinct, _⟩ := acceptCategories_eq_ok_iff.mp accepted
  obtain ⟨others, accepts, same⟩ := List.perm_comp_forall₂ perm each
  have differ : Distinct others := (same.pairwise_iff fun apart => apart.symm).mpr distinct
  exact ⟨others, acceptCategories_eq_ok_iff.mpr ⟨others, rfl, accepts, differ, by simp⟩, same⟩

theorem find?_eq_some_iff_of_distinct (distinct : Distinct categories) {name : String}
    {c : Category} :
    categories.find? (·.name = name) = some c ↔ c ∈ categories ∧ c.name = name := by
  constructor
  · intro found
    exact ⟨List.mem_of_find?_eq_some found, by simpa using List.find?_some found⟩
  · rintro ⟨member, rfl⟩
    obtain ⟨before, after, rfl⟩ := List.append_of_mem member
    refine List.find?_eq_some_iff_append.mpr ⟨by simp, before, after, rfl, fun b earlier => ?_⟩
    have apart := (List.pairwise_append.mp distinct).2.2 b earlier c List.mem_cons_self
    simpa using apart

theorem find?_eq_of_perm (distinct : Distinct categories) (perm : others.Perm categories)
    (name : String) : others.find? (·.name = name) = categories.find? (·.name = name) := by
  have differ : Distinct others := (perm.pairwise_iff fun apart => apart.symm).mpr distinct
  apply Option.ext
  intro c
  rw [find?_eq_some_iff_of_distinct distinct, find?_eq_some_iff_of_distinct differ, perm.mem_iff]

theorem danglingOccupant?_eq_none_iff : danglingOccupant? categories = none ↔
    ∀ c ∈ categories, ∀ occupant ∈ c.allowed, ∃ k ∈ categories, k.name = occupant := by
  simp [danglingOccupant?, List.findSome?_eq_none_iff, OrderedSet.mem_def]

/-! ## Objects -/

/-- Only what is found under each name matters for the categories of objects. -/
theorem resolve_congr
    (same : ∀ name, others.find? (·.name = name) = categories.find? (·.name = name))
    (before : List Member) :
    resolve others before objects = resolve categories before objects := by
  induction objects generalizing before with
  | nil => rfl
  | cons o rest ih => simp only [resolve, same, ih]

/-- The same schema with its categories listed in another order, or with other ones. -/
def listing (schema : Schema) (categories : List Category) : Schema := { schema with categories }

/--
A declaration that is accepted is accepted in every order of its objects and of
its categories, and its schema then only lists its categories differently.
-/
theorem build_perm (permObjects : reordered.Perm objects) (perm : redeclared.Perm declared)
    (built : build objects declared = .ok schema) :
    ∃ categories, categories.Perm schema.categories ∧
      build reordered redeclared = .ok (schema.listing categories) := by
  obtain ⟨categories, members, accepted, known, resolved, consistent, rfl⟩ :=
    build_eq_ok_iff.mp built
  obtain ⟨others, alsoAccepted, same⟩ := acceptCategories_perm perm accepted
  obtain ⟨_, rfl, _, distinct, _⟩ := acceptCategories_eq_ok_iff.mp accepted
  refine ⟨others, same, build_eq_ok_iff.mpr ⟨others, members, alsoAccepted, ?_, ?_, consistent,
    rfl⟩⟩
  · simpa only [danglingOccupant?_eq_none_iff, same.mem_iff] using known
  · rw [sorted_eq_of_perm permObjects, resolve_congr (find?_eq_of_perm distinct same)]
    exact resolved

/-! ## Literals -/

section Literals

variable {literals relisted : List Literal} {s : State} {goal : OrderedSet Literal}

theorem initialState_congr (accepted : schema.Accepted) (same : ∀ l, l ∈ relisted ↔ l ∈ literals)
    (described : schema.initialState literals = .ok s) :
    schema.initialState relisted = .ok s := by
  rw [accepted.initialState_eq_ok_iff_fits] at described ⊢
  obtain ⟨sameScope, fits⟩ := described
  refine ⟨sameScope, fits.sane, fits.acyclic, ?_, ?_, ?_, fits.established⟩
  · exact fun l member => fits.known l ((same l).mp member)
  · exact fun l member => fits.holds l ((same l).mp member)
  · exact fun f member arranges => (same _).mpr (fits.listed f member arranges)

theorem goal_congr (accepted : schema.Accepted) (same : ∀ l, l ∈ relisted ↔ l ∈ literals)
    (demanded : schema.goal literals = .ok goal) : schema.goal relisted = .ok goal := by
  obtain ⟨_, checked, listed⟩ := Except.exists_of_bind_eq_ok demanded
  cases listed
  have sameSet : OrderedSet.ofList relisted = OrderedSet.ofList literals :=
    OrderedSet.eq_of_mem_iff (by simpa only [OrderedSet.mem_ofList] using same)
  have alsoChecked : schema.checkLiterals "goal" relisted = .ok () := by
    rw [checkLiterals_eq_ok_iff accepted] at checked ⊢
    simpa only [same] using checked
  rw [Schema.goal, alsoChecked, ← sameSet]
  rfl

end Literals

end Schema

end StackingPlanner
