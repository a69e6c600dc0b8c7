import StackingPlanner.Proofs.Search.Correct
import StackingPlanner.Proofs.Schema.Initial
import Mathlib.Logic.Relation
import Mathlib.Order.WellFounded

/-!
# Nothing is lost on a walk

An action takes an object from its support into the hand or places the held
object on a support, so whether an object has a position never changes.  An
object that is taken loses a link, and an object that is placed carries
nothing, so no chain of supports comes to go on forever.  Together with sanity
this says where every object is in a state that is reached from an initial one.
-/

namespace StackingPlanner

namespace State

def RestsOn (s : State) (x y : String) : Prop := .on x y ∈ s.facts

def IsHeld (s : State) (x : String) : Prop := .holding x ∈ s.facts

def HasPosition (s : State) (x : String) : Prop := s.IsHeld x ∨ ∃ y, s.RestsOn x y

/-- An object rests on exactly one support and is not held, or is held and rests on none. -/
def InOnePlace (s : State) (x : String) : Prop :=
  ((∃! y, s.RestsOn x y) ∧ ¬ s.IsHeld x) ∨ (s.IsHeld x ∧ ∀ y, ¬ s.RestsOn x y)

end State

section Moves

variable {x y : Member} {s t : State}

/-- An object that is taken from its support keeps a position, and no other changes its own. -/
theorem Taking.hasPosition_iff (taking : Taking x y s t) (placed : s.RestsOn x.name y.name)
    (z : String) : t.HasPosition z ↔ s.HasPosition z := by
  simp only [State.HasPosition, State.IsHeld, State.RestsOn, taking.on_iff, taking.holding_iff]
  by_cases isObject : z = x.name
  · subst isObject
    exact ⟨fun _ => .inr ⟨_, placed⟩, fun _ => .inl (.inl rfl)⟩
  · simp [isObject]

/-- An object that is placed on a support keeps a position, and no other changes its own. -/
theorem Placing.hasPosition_iff (placing : Placing x y s t) (held : s.IsHeld x.name)
    (z : String) : t.HasPosition z ↔ s.HasPosition z := by
  simp only [State.HasPosition, State.IsHeld, State.RestsOn, placing.on_iff, placing.holding_iff]
  by_cases isObject : z = x.name
  · subst isObject
    exact ⟨fun _ => .inl held, fun _ => .inr ⟨_, .inl ⟨rfl, rfl⟩⟩⟩
  · simp [isObject]

theorem Taking.wellFounded (taking : Taking x y s t)
    (ends : WellFounded (fun b a => s.RestsOn a b)) :
    WellFounded (fun b a => t.RestsOn a b) :=
  Subrelation.wf (fun after => ((taking.on_iff _ _).mp after).1) ends

/-- Placing a bare object makes a chain of supports longer only at its upper end. -/
theorem Placing.wellFounded (placing : Placing x y s t) (differ : x.name ≠ y.name)
    (bare : ∀ a, ¬ s.RestsOn a x.name) (ends : WellFounded (fun b a => s.RestsOn a b)) :
    WellFounded (fun b a => t.RestsOn a b) := by
  have below : ∀ {a b}, t.RestsOn a b → b ≠ x.name := by
    intro a b after same
    rcases (placing.on_iff a b).mp after with ⟨_, support⟩ | before
    · exact differ (same.symm.trans support)
    · exact bare a (same ▸ before)
  have others : ∀ a, a ≠ x.name → Acc (fun b a => t.RestsOn a b) a := by
    intro a
    induction a using ends.induction with
    | _ a ih =>
      intro other
      refine Acc.intro a (fun b after => ih b ?_ (below after))
      exact ((placing.on_iff a b).mp after).resolve_left (fun both => other both.1)
  exact ⟨fun a => Acc.intro a (fun b after => others b (below after))⟩

end Moves

namespace Schema

variable {schema : Schema} {s t : State}

/--
No choice that can be made in a sane state changes whether an object has a
position or makes a chain of supports go on forever.
-/
theorem Sane.positions_after (sane : schema.Sane s) (accepted : schema.Accepted) {choice : Choice}
    (allowed : schema.Allows s choice) (ends : WellFounded (fun b a => s.RestsOn a b)) :
    (∀ x, (s.after choice).HasPosition x ↔ s.HasPosition x) ∧
      WellFounded (fun b a => (s.after choice).RestsOn a b) := by
  cases choice with
  | none => exact ⟨fun _ => Iff.rfl, ends⟩
  | some a =>
      obtain ⟨member, executable⟩ := allowed
      obtain ⟨op, x, y, -, -, may, -, rfl⟩ := accepted.exists_ground member
      cases places : op.places with
      | false =>
          have placed := ((Operator.isExecutable_take_iff places).mp executable).1
          have taking : Taking x y s _ := taking_of_ground places
          exact ⟨taking.hasPosition_iff placed, taking.wellFounded ends⟩
      | true =>
          have held := ((Operator.isExecutable_place_iff places).mp executable).1
          have placing : Placing x y s _ := placing_of_ground places
          exact ⟨placing.hasPosition_iff held, placing.wellFounded (mayRestOn_iff.mp may).1
            (fun a => sane.heldBare a _ held) ends⟩

theorem Sane.positions_walk (sane : schema.Sane s) (accepted : schema.Accepted)
    {choices : List Choice} (walk : schema.Walk s choices t)
    (ends : WellFounded (fun b a => s.RestsOn a b)) :
    (∀ x, t.HasPosition x ↔ s.HasPosition x) ∧ WellFounded (fun b a => t.RestsOn a b) := by
  induction walk with
  | nil => exact ⟨fun _ => Iff.rfl, ends⟩
  | cons allowed _ ih =>
      obtain ⟨same, ends⟩ := sane.positions_after accepted allowed ends
      obtain ⟨sameLater, ends⟩ := ih (sane.after accepted allowed) ends
      exact ⟨fun x => (sameLater x).trans (same x), ends⟩

/-! ## Where the objects are in a sane state -/

theorem Sane.inOnePlace (sane : schema.Sane s) {x : String} (position : s.HasPosition x) :
    s.InOnePlace x := by
  rcases position with held | ⟨y, placed⟩
  · exact .inr ⟨held, fun y => sane.heldFree x y held⟩
  · exact .inl ⟨⟨y, placed, fun z other => sane.oneSupport x z y other placed⟩,
      fun held => sane.heldFree x y held placed⟩

/-- Objects rest only on others that may support them. -/
theorem Sane.canSupport (sane : schema.Sane s) (accepted : schema.Accepted) {x y : String}
    (placed : s.RestsOn x y) : schema.canSupport y x = .ok true :=
  (canSupport_eq_true_iff accepted).mpr (sane.within _ placed)

/-- The supports of an object that rests on another come to an end at an object without one. -/
theorem Sane.exists_bottom (sane : schema.Sane s) (accepted : schema.Accepted)
    (ends : WellFounded (fun b a => s.RestsOn a b)) {x y : String} (placed : s.RestsOn x y) :
    ∃ m ∈ schema.members, Relation.TransGen s.RestsOn x m.name ∧ ¬ s.HasPosition m.name := by
  induction x using ends.induction generalizing y with
  | _ x ih =>
    by_cases further : ∃ z, s.RestsOn y z
    · obtain ⟨z, further⟩ := further
      obtain ⟨m, hm, chain, bottom⟩ := ih y placed further
      exact ⟨m, hm, .head placed chain, bottom⟩
    · have known := sane.within _ placed
      rw [accepted.scope_eq, on_mem_fluents_iff] at known
      obtain ⟨_, _, m, hm, _, _, rfl⟩ := known
      refine ⟨m, hm, .single placed, ?_⟩
      rintro (held | resting)
      · exact sane.heldBare x _ held placed
      · exact further resting

/-- What two states of which one is reached from the other say about where the objects are. -/
structure KeepsPositions (schema : Schema) (s t : State) : Prop where
  /-- An object that had a position is in one place. -/
  kept : ∀ m ∈ schema.members, m.category.movable = true → s.HasPosition m.name →
    t.InOnePlace m.name
  /-- An object without a position stays without one. -/
  unplaced : ∀ m ∈ schema.members, m.category.movable = true → ¬ s.HasPosition m.name →
    (∀ y, ¬ t.RestsOn m.name y) ∧ ¬ t.IsHeld m.name
  oneHeld : ∀ x y, t.IsHeld x → t.IsHeld y → x = y
  supported : ∀ x y, t.RestsOn x y → schema.canSupport y x = .ok true
  acyclic : ∀ x, ¬ Relation.TransGen t.RestsOn x x
  /-- The supports of an object lead to one that is fixed or has no position. -/
  grounded : ∀ x y, t.RestsOn x y → ∃ m ∈ schema.members,
    Relation.TransGen t.RestsOn x m.name ∧ (∀ z, ¬ t.RestsOn m.name z) ∧
      (m.category.movable = false ∨ ¬ t.HasPosition m.name)

/--
In every state that is reached from an initial state, exactly the objects that
had a position have one, each of them only one, objects rest only on others
that may support them, and their supports never lead back to them.
-/
theorem keepsPositions_of_walk {objects : List DomainObject}
    {declared : List CategoryDeclaration} (built : Schema.build objects declared = .ok schema)
    {literals : List Literal} (described : schema.initialState literals = .ok s)
    {choices : List Choice} (walk : schema.Walk s choices t) : schema.KeepsPositions s t := by
  have accepted := accepted_of_build built
  obtain ⟨-, start, ends⟩ := sane_of_initialState accepted described
  have sane := start.walk accepted walk
  obtain ⟨same, ends⟩ := start.positions_walk accepted walk ends
  constructor
  case kept =>
    intro m _ _ position
    exact sane.inOnePlace ((same m.name).mpr position)
  case unplaced =>
    intro m _ _ none
    have none := mt (same m.name).mp none
    exact ⟨fun y placed => none (.inr ⟨y, placed⟩), fun held => none (.inl held)⟩
  case oneHeld => exact sane.oneHeld
  case supported =>
    intro x y placed
    exact sane.canSupport accepted placed
  case acyclic =>
    intro x cycle
    exact ends.transGen.irrefl.irrefl x (Relation.transGen_swap.mp cycle)
  case grounded =>
    intro x y placed
    obtain ⟨m, hm, chain, bottom⟩ := sane.exists_bottom accepted ends placed
    exact ⟨m, hm, chain, fun z further => bottom (.inr ⟨z, further⟩), .inr bottom⟩

end Schema

/-! ## The disc is lifted -/

namespace Search

theorem check_loneDisc : (Arrangement.mk [("a", "p")] []).check loneDisc = .ok () := by
  refine Arrangement.check_eq_ok_iff.mpr ⟨rfl, rfl, rfl, ?_⟩
  have ends : Links.runsIntoCycle [("a", "p")] [] "a" = false := by
    rw [Links.runsIntoCycle_follow List.not_mem_nil rfl]
    exact Links.runsIntoCycle_rest (by decide) rfl
  simp [Links.cycleStart?, sorted, ends]

theorem initialState_loneDisc :
    loneDisc.initialState [.holds (.on "a" "p")] = .ok loneDiscStart := by
  change ((do
    (Arrangement.mk [("a", "p")] []).check loneDisc
    return Arrangement.mk [("a", "p")] []) >>= fun a => loneDisc.complete a _ :
      Except Failure State) = _
  rw [check_loneDisc]
  rfl

def loneDiscLift : Action :=
  Operator.pickUp.ground ⟨"a", ⟨"disc", .one, OrderedSet.ofList ["disc"], true, true⟩⟩
    ⟨"p", ⟨"peg", .one, OrderedSet.ofList ["disc"], false, true⟩⟩

theorem walk_loneDiscLift :
    loneDisc.Walk loneDiscStart [none, some loneDiscLift] (loneDiscStart.after loneDiscLift) :=
  .cons trivial (.cons ⟨by decide, by decide⟩ (.nil _))

theorem keepsPositions_of_walk_loneDisc :
    loneDisc.KeepsPositions loneDiscStart (loneDiscStart.after loneDiscLift) ∧
      (loneDiscStart.after loneDiscLift).IsHeld "a" :=
  ⟨Schema.keepsPositions_of_walk build_loneDisc initialState_loneDisc walk_loneDiscLift,
    by rw [State.IsHeld]; decide⟩

end Search

end StackingPlanner
