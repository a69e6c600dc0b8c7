import StackingPlanner.Proofs.Proof.Support

/-!
# Proofs whose steps depend on earlier ones

If every step of a proof has a new identifier and depends on earlier steps only,
the steps can be told apart and no link leads in a circle.  Where each step has
one parent, the links descend to a premise.  A step with two parents, of which
the second is a premise, is supported by the two of them and then by all steps
below the first one in turn.
-/

namespace StackingPlanner

namespace Proof

variable {p : Proof} {s t u : ProofStep} {key : Key} {keys met waiting : List Key}
  {parents steps : List ProofStep}

/-! ## Earlier steps -/

/-- Steps with identifiers that are not known yet; each depends on what is known before it. -/
inductive Grounded : List String → List ProofStep → Prop where
  | nil (known : List String) : Grounded known []
  | cons {known : List String} (parents : List String) {id : String} {s : ProofStep}
      {rest : List ProofStep} (isText : s.id = .text id) (new : id ∉ known)
      (areTexts : s.parents = Value.texts parents)
      (earlier : ∀ parent ∈ parents, parent ∈ known) (later : Grounded (id :: known) rest) :
      Grounded known (s :: rest)

namespace Grounded

variable {known : List String}

theorem texts (grounded : Grounded known steps) :
    ∀ s ∈ steps, ∃ id parents, s.id = .text id ∧ s.parents = Value.texts parents := by
  induction grounded with
  | nil => nofun
  | cons parents isText new areTexts earlier later ih =>
      intro s member
      rcases List.mem_cons.mp member with rfl | member
      · exact ⟨_, _, isText, areTexts⟩
      · exact ih s member

theorem ne_of_known (grounded : Grounded known steps) :
    ∀ s ∈ steps, ∀ id ∈ known, s.id ≠ .text id := by
  induction grounded with
  | nil => nofun
  | cons parents isText new areTexts earlier later ih =>
      intro s member id old
      rcases List.mem_cons.mp member with rfl | member
      · rw [isText]
        rintro ⟨⟩
        exact new old
      · exact ih s member id (List.mem_cons_of_mem _ old)

theorem distinct (grounded : Grounded known steps) : (steps.map ProofStep.id).Nodup := by
  induction grounded with
  | nil => exact .nil
  | cons parents isText new areTexts earlier later ih =>
      refine List.nodup_cons.mpr ⟨fun again => ?_, ih⟩
      obtain ⟨s, member, same⟩ := List.mem_map.mp again
      exact later.ne_of_known s member _ List.mem_cons_self (same.trans isText)

theorem exists_parents {before after : List ProofStep}
    (grounded : Grounded known (before ++ s :: after)) :
    ∃ parents, s.parents = Value.texts parents ∧
      ∀ id ∈ parents, id ∈ known ∨ ∃ t ∈ before, t.id = .text id := by
  induction before generalizing known with
  | nil =>
      cases grounded with
      | cons parents isText new areTexts earlier later =>
          exact ⟨_, areTexts, fun id parent => .inl (earlier id parent)⟩
  | cons first before ih =>
      cases grounded with
      | cons parents isText new areTexts earlier later =>
          obtain ⟨parents, same, source⟩ := ih later
          refine ⟨parents, same, fun id parent => ?_⟩
          rcases source id parent with old | ⟨t, member, here⟩
          · rcases List.mem_cons.mp old with rfl | old
            · exact .inr ⟨first, List.mem_cons_self, isText⟩
            · exact .inl old
          · exact .inr ⟨t, List.mem_cons_of_mem _ member, here⟩

end Grounded

structure WellFounded (p : Proof) : Prop where
  distinct : p.ids.Nodup
  earlier : ∀ before s after, p.steps = before ++ s :: after →
    ∃ parents, s.parents = Value.texts parents ∧
      ∀ id ∈ parents, ∃ t ∈ before, t.id = .text id

theorem Grounded.wellFounded (grounded : Grounded [] p.steps) : p.WellFounded where
  distinct := grounded.distinct
  earlier before s after split := by
    rw [split] at grounded
    obtain ⟨parents, same, source⟩ := grounded.exists_parents
    exact ⟨parents, same, fun id parent => (source id parent).resolve_left List.not_mem_nil⟩

theorem Grounded.tidy (grounded : Grounded [] p.steps) : p.Tidy :=
  tidy_of_texts grounded.distinct grounded.texts

/-! ## Collecting along the links -/

theorem newcomers_of_new (distinct : keys.Nodup) (new : ∀ key ∈ keys, key ∉ met) :
    newcomers met keys = keys := by
  induction keys generalizing met with
  | nil => rfl
  | cons key keys ih =>
      obtain ⟨once, distinct⟩ := List.nodup_cons.mp distinct
      rw [newcomers, if_neg (new key List.mem_cons_self)]
      refine congrArg _ (ih distinct (fun other later old => ?_))
      rcases List.mem_cons.mp old with rfl | old
      · exact once later
      · exact new other (List.mem_cons_of_mem _ later) old

theorem Tidy.filterMap_find?_keys (tidy : p.Tidy) (known : ∀ t ∈ parents, t ∈ p.steps) :
    (parents.map ProofStep.key).filterMap p.find? = parents := by
  have each : ∀ t ∈ parents, p.find? t.key = some t :=
    fun t member => tidy.find?_eq_some_iff.mpr ⟨known t member, rfl⟩
  rw [List.filterMap_map]
  exact (List.filterMap_congr each).trans List.filterMap_some

/-- Parents that are new are collected together, before all that is collected from then on. -/
theorem Tidy.collect_parents (tidy : p.Tidy) (parents : List ProofStep) (member : s ∈ p.steps)
    (known : ∀ t ∈ parents, t ∈ p.steps)
    (read : s.parentKeys = .ok (parents.map ProofStep.key))
    (distinct : (parents.map ProofStep.key).Nodup) (new : ∀ t ∈ parents, t.key ∉ met)
    {others : List ProofStep}
    (rest : p.collect (met ++ parents.map ProofStep.key) (waiting ++ parents.map ProofStep.key) =
      .ok others) :
    p.collect met (s.key :: waiting) = .ok (parents ++ others) := by
  have fresh : newcomers met (parents.map ProofStep.key) = parents.map ProofStep.key :=
    newcomers_of_new distinct (by simpa using new)
  have found := tidy.filterMap_find?_keys known
  have collected := @collect_cons p _ met s.key waiting
    ((tidy.parentsOf_key member).trans read) others
  rw [fresh, found] at collected
  exact collected rest

/-- Premises that wait add nothing. -/
theorem Tidy.collect_premises (tidy : p.Tidy) {premises : List ProofStep}
    (known : ∀ t ∈ premises, t ∈ p.steps ∧ t.parents = Value.texts []) {others : List ProofStep}
    (rest : p.collect met waiting = .ok others) :
    p.collect met (premises.map ProofStep.key ++ waiting) = .ok others := by
  induction premises with
  | nil => exact rest
  | cons premise premises ih =>
      have later := ih (fun t member => known t (List.mem_cons_of_mem _ member))
      obtain ⟨member, none⟩ := known premise List.mem_cons_self
      have read := parentKeys_of_texts none
      refine tidy.collect_parents [] member (List.forall_mem_nil _) read .nil
        (List.forall_mem_nil _) ?_
      rw [List.map_nil, List.append_nil, List.append_nil]
      exact later

/-- The only parent of each step comes after it, down to a premise. -/
inductive Descends (p : Proof) : ProofStep → List ProofStep → Prop where
  | premise {s : ProofStep} (member : s ∈ p.steps) (none : s.parents = Value.texts []) :
      Descends p s []
  | onward {s t : ProofStep} {id : String} {steps : List ProofStep} (member : s ∈ p.steps)
      (only : s.parents = Value.texts [id]) (isText : t.id = .text id)
      (below : Descends p t steps) : Descends p s (t :: steps)

theorem Descends.mem (descends : p.Descends s steps) : s ∈ p.steps := by
  cases descends with
  | premise member _ => exact member
  | onward member _ _ _ => exact member

/-- While premises wait, the steps below a step are collected in turn. -/
theorem Descends.collect (tidy : p.Tidy) (descends : p.Descends s steps)
    (distinct : (steps.map ProofStep.key).Nodup) (new : ∀ t ∈ steps, t.key ∉ met)
    (premises : List ProofStep)
    (known : ∀ t ∈ premises, t ∈ p.steps ∧ t.parents = Value.texts []) :
    p.collect met (s.key :: premises.map ProofStep.key) = .ok steps := by
  induction descends generalizing met premises with
  | @premise s member none =>
      have ended := @Tidy.collect_premises p met [] tidy (s :: premises)
        (List.forall_mem_cons.mpr ⟨⟨member, none⟩, known⟩) [] (collect.eq_1 ..)
      rwa [List.append_nil] at ended
  | @onward s t id steps member only isText below ih =>
      obtain ⟨once, distinct⟩ := List.nodup_cons.mp distinct
      have read : s.parentKeys = .ok ([t].map ProofStep.key) := by
        rw [parentKeys_of_texts only, List.map_singleton, List.map_singleton, ProofStep.key, isText]
        rfl
      have stillNew : ∀ u ∈ steps, u.key ∉ met ++ [t.key] := by
        intro u later old
        rcases List.mem_append.mp old with old | here
        · exact new u (List.mem_cons_of_mem _ later) old
        · have same : u.key = t.key := List.mem_singleton.mp here
          exact once (same ▸ List.mem_map_of_mem later)
      refine tidy.collect_parents [t] member (by simpa using below.mem) read
        (List.nodup_singleton _) (by simpa using new t List.mem_cons_self) ?_
      exact tidy.collect_premises known (ih distinct stillNew [] (List.forall_mem_nil _))

end Proof

end StackingPlanner
