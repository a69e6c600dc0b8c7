import StackingPlanner.Proofs.Schema.Carry

/-!
# The schema of a tower puzzle

In a tower puzzle every disc may rest on every other disc and on every peg, and
nothing else may rest anywhere.  A disc on which nothing rests can be carried
onto any disc or peg on which nothing rests.
-/

namespace StackingPlanner

namespace Puzzle

namespace Tower

def disc : Category := ⟨"disc", .one, OrderedSet.ofList ["disc"], true, true⟩

def peg : Category := ⟨"peg", .one, OrderedSet.ofList ["disc"], false, true⟩

/-- A schema is that of a tower puzzle with some discs and some pegs. -/
structure IsSchema (discs pegs : List String) (schema : Schema) : Prop where
  accepted : schema.Accepted
  distinct : (discs ++ pegs).Nodup
  mem_members_iff : ∀ m, m ∈ schema.members ↔
    (m.name ∈ discs ∧ m.category = disc) ∨ (m.name ∈ pegs ∧ m.category = peg)

variable {discs pegs : List String} {schema : Schema} {s t : State} {x y z : String}

/-- The discs and pegs of a tower puzzle that is accepted make up its schema. -/
theorem isSchema_of_build
    (built : Schema.build (declare "disc" discs ++ declare "peg" pegs) categories = .ok schema) :
    IsSchema discs pegs schema := by
  have accepted := Schema.accepted_of_build built
  obtain ⟨found, members, sorts, resolved, rfl⟩ := Schema.ofMembers_of_build built
  have same : [disc, peg] = found := Except.ok.inj sorts
  subst same
  constructor
  case accepted => exact accepted
  case distinct =>
    obtain ⟨names, _, apart⟩ := Schema.resolve_names resolved
    have order : (sorted (declare "disc" discs ++ declare "peg" pegs)).Perm _ :=
      List.mergeSort_perm _ _
    have distinct : (members.map (·.name)).Nodup := List.pairwise_map.mpr apart
    rw [names, (order.map DomainObject.name).nodup_iff] at distinct
    simpa [declare, Function.comp_def] using distinct
  case mem_members_iff =>
    intro m
    rw [show m ∈ (Schema.ofMembers [disc, peg] members).members ↔ _ from
      Schema.mem_resolve_iff resolved]
    simp only [sorted, List.mem_mergeSort, declare, List.mem_append, List.mem_map, or_and_right,
      exists_or, ↓existsAndEq, and_true, true_and]
    simp [disc, peg, eq_comm]

namespace IsSchema

variable (isSchema : IsSchema discs pegs schema)

include isSchema

theorem not_disc (isPeg : x ∈ pegs) : x ∉ discs := fun isDisc =>
  (List.nodup_append.mp isSchema.distinct).2.2 x isDisc x isPeg rfl

/-- Every disc and every peg is an object that operators serve and on which a disc may rest. -/
theorem exists_member (known : x ∈ discs ∨ x ∈ pegs) :
    ∃ m ∈ schema.members, m.name = x ∧ m.category.serves = true ∧ m.category.receives = true ∧
      "disc" ∈ m.category.allowed := by
  rcases known with isDisc | isPeg
  · exact ⟨⟨x, disc⟩, (isSchema.mem_members_iff _).mpr (.inl ⟨isDisc, rfl⟩), rfl, rfl, rfl,
      OrderedSet.mem_ofList.mpr (List.mem_singleton_self _)⟩
  · exact ⟨⟨x, peg⟩, (isSchema.mem_members_iff _).mpr (.inr ⟨isPeg, rfl⟩), rfl, rfl, rfl,
      OrderedSet.mem_ofList.mpr (List.mem_singleton_self _)⟩

/-- Only discs rest on something, and only on another disc or on a peg. -/
theorem known_of_restsOn (sane : schema.Sane s) (placed : s.RestsOn x y) :
    x ∈ discs ∧ (y ∈ discs ∨ y ∈ pegs) ∧ x ≠ y := by
  have inScope := sane.within _ placed
  rw [isSchema.accepted.scope_eq, Schema.on_mem_fluents_iff] at inScope
  obtain ⟨m, hm, n, hn, may, rfl, rfl⟩ := inScope
  obtain ⟨differ, movable, -, -⟩ := Schema.mayRestOn_iff.mp may
  refine ⟨?_, ?_, differ⟩
  · rcases (isSchema.mem_members_iff m).mp hm with ⟨isDisc, _⟩ | ⟨_, fixed⟩
    · exact isDisc
    · rw [fixed] at movable
      cases movable
  · rcases (isSchema.mem_members_iff n).mp hn with ⟨isDisc, _⟩ | ⟨isPeg, _⟩
    · exact .inl isDisc
    · exact .inr isPeg

/--
With an empty hand a disc on which nothing rests can be carried onto any other
disc and any peg on which nothing rests.
-/
theorem exists_carry (sane : schema.Sane s) (free : .handEmpty ∈ s.facts) (placed : s.RestsOn x y)
    (known : z ∈ discs ∨ z ∈ pegs) (differ : x ≠ z) (bare : ∀ w, ¬ s.RestsOn w x)
    (bareSupport : ∀ w, ¬ s.RestsOn w z) :
    ∃ t, schema.Leads s t ∧ schema.Sane t ∧ .handEmpty ∈ t.facts ∧
      ∀ a b, t.RestsOn a b ↔ (a = x ∧ b = z) ∨ (a ≠ x ∧ s.RestsOn a b) := by
  obtain ⟨isDisc, knownSupport, _⟩ := isSchema.known_of_restsOn sane placed
  have hx : ⟨x, disc⟩ ∈ schema.members := (isSchema.mem_members_iff _).mpr (.inl ⟨isDisc, rfl⟩)
  obtain ⟨m, hm, rfl, served, _, _⟩ := isSchema.exists_member knownSupport
  obtain ⟨n, hn, rfl, serves, receives, allowed⟩ := isSchema.exists_member known
  have may : Member.mayRestOn ⟨x, disc⟩ n = true :=
    Schema.mayRestOn_iff.mpr ⟨differ, rfl, receives, allowed⟩
  obtain ⟨t, ⟨choices, walk⟩, free, moved⟩ := sane.exists_carry isSchema.accepted hx hm hn served
    serves may free placed bare bareSupport
  exact ⟨t, ⟨choices, walk⟩, sane.walk isSchema.accepted walk, free, moved⟩

end IsSchema

end Tower

end Puzzle

end StackingPlanner
