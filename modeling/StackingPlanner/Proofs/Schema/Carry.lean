import StackingPlanner.Proofs.Schema.Positions

/-!
# Objects can be carried

With an empty hand an object on which nothing rests can be taken from its
support, and then it can be placed on any other object that may support it and
on which nothing rests.  This takes two actions.  The object then rests where it
was carried, every other object rests where it did, and the hand is empty again.
-/

namespace StackingPlanner

namespace Schema

variable {schema : Schema} {s t u : State}

def Leads (schema : Schema) (s t : State) : Prop := ∃ choices, schema.Walk s choices t

theorem Leads.refl (s : State) : schema.Leads s s := ⟨[], .nil s⟩

theorem Leads.trans (first : schema.Leads s t) (second : schema.Leads t u) : schema.Leads s u := by
  obtain ⟨choices, walk⟩ := first
  obtain ⟨more, onward⟩ := second
  exact ⟨choices ++ more, walk.append onward⟩

theorem Leads.cons {choice : Choice} (allowed : schema.Allows s choice)
    (onward : schema.Leads (s.after choice) t) : schema.Leads s t := by
  obtain ⟨choices, walk⟩ := onward
  exact ⟨choice :: choices, .cons allowed walk⟩

section Carry

variable {x y z : Member} (sane : schema.Sane s) (accepted : schema.Accepted)
  (hx : x ∈ schema.members)

include sane accepted hx

/-- With an empty hand an object on which nothing rests can be taken from its support. -/
theorem Sane.exists_take (hy : y ∈ schema.members) (serves : y.category.serves = true)
    (free : .handEmpty ∈ s.facts) (placed : s.RestsOn x.name y.name)
    (bare : ∀ w, ¬ s.RestsOn w x.name) :
    ∃ a, schema.Allows s (some a) ∧ Taking x y s (s.after (some a)) := by
  obtain ⟨op, takes, suit⟩ := exists_suits serves false
  have inScope := sane.within _ placed
  rw [accepted.scope_eq, on_mem_fluents_iff] at inScope
  obtain ⟨m, hm, n, hn, may, sameObject, sameSupport⟩ := inScope
  cases accepted.member_eq hm hx sameObject.symm
  cases accepted.member_eq hn hy sameSupport.symm
  refine ⟨op.ground x y, ⟨accepted.ground_mem_actions hx hy may suit, ?_⟩, taking_of_ground takes⟩
  apply (Operator.isExecutable_take_iff takes).mpr
  refine ⟨placed, free, fun tracks => ?_⟩
  exact (sane.clear x hx tracks).mpr ⟨bare, sane.hand.mp free x.name⟩

/-- A held object can be placed on an object that may support it and on which nothing rests. -/
theorem Sane.exists_place (hz : z ∈ schema.members) (serves : z.category.serves = true)
    (may : x.mayRestOn z = true) (held : s.IsHeld x.name) (bare : ∀ w, ¬ s.RestsOn w z.name) :
    ∃ a, schema.Allows s (some a) ∧ Placing x z s (s.after (some a)) := by
  obtain ⟨op, places, suit⟩ := exists_suits serves true
  refine ⟨op.ground x z, ⟨accepted.ground_mem_actions hx hz may suit, ?_⟩,
    placing_of_ground places⟩
  apply (Operator.isExecutable_place_iff places).mpr
  refine ⟨held, fun tracks => (sane.clear z hz tracks).mpr ⟨bare, fun other => ?_⟩⟩
  exact (mayRestOn_iff.mp may).1 (sane.oneHeld _ _ held other)

/--
With an empty hand an object on which nothing rests can be carried to any other
object that may support it and on which nothing rests.
-/
theorem Sane.exists_carry (hy : y ∈ schema.members) (hz : z ∈ schema.members)
    (served : y.category.serves = true) (serves : z.category.serves = true)
    (may : x.mayRestOn z = true) (free : .handEmpty ∈ s.facts) (placed : s.RestsOn x.name y.name)
    (bare : ∀ w, ¬ s.RestsOn w x.name) (bareSupport : ∀ w, ¬ s.RestsOn w z.name) :
    ∃ t, schema.Leads s t ∧ .handEmpty ∈ t.facts ∧
      ∀ a b, t.RestsOn a b ↔ (a = x.name ∧ b = z.name) ∨ (a ≠ x.name ∧ s.RestsOn a b) := by
  obtain ⟨take, mayTake, taking⟩ :=
    sane.exists_take accepted hx hy served free placed bare
  have held : (s.after (some take)).IsHeld x.name := (taking.holding_iff _).mpr (.inl rfl)
  have stillBare : ∀ w, ¬ (s.after (some take)).RestsOn w z.name := fun w after =>
    bareSupport w ((taking.on_iff _ _).mp after).1
  obtain ⟨place, mayPlace, placing⟩ :=
    (sane.after accepted mayTake).exists_place accepted hx hz serves may held stillBare
  refine ⟨_, .cons mayTake (.cons mayPlace (.refl _)), placing.handEmpty, fun a b => ?_⟩
  rw [State.RestsOn, placing.on_iff, taking.on_iff]
  constructor
  · rintro (carried | ⟨before, other⟩)
    · exact .inl carried
    · refine .inr ⟨?_, before⟩
      rintro rfl
      exact other ⟨rfl, sane.oneSupport _ _ _ before placed⟩
  · rintro (carried | ⟨other, before⟩)
    · exact .inl carried
    · exact .inr ⟨before, fun both => other both.1⟩

end Carry

end Schema

end StackingPlanner
