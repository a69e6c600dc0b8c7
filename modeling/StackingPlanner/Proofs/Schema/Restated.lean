import StackingPlanner.Proofs.Schema.Described

/-!
# A state that is reached can be stated again

An action establishes the placings and holdings that it brings about and leaves
the others alone, so in a state that is reached from an initial one all of them
are established.  The state is sane and without cycles as well, and therefore
every list of literals that holds in it and lists its placings and holdings
describes it: the whole assignment, or the placings and holdings alone.
-/

namespace StackingPlanner

/-- Every literal of the whole assignment is in scope and holds. -/
theorem State.holds_of_mem_literals {s : State} {l : Literal} (member : l ∈ s.literals) :
    l.fluent ∈ s.scope ∧ s.holds l = true := by
  obtain ⟨f, inScope, rfl⟩ := List.mem_map.mp member
  exact ⟨inScope, beq_self_eq_true _⟩

namespace Schema

variable {schema : Schema} {s t : State} {choices : List Choice} {literals : List Literal}

/-! ## What actions bring about stays established -/

theorem Established.after (established : schema.Established s) {choice : Choice}
    (allowed : schema.Allows s choice) : schema.Established (s.after choice) := by
  cases choice with
  | none => exact established
  | some a =>
      intro f member arranges
      rcases State.mem_facts_bringAbout_iff.mp member with brought | ⟨before, _⟩
      · exact ⟨a, allowed.1, brought⟩
      · exact established f before arranges

theorem Established.walk (established : schema.Established s)
    (walk : schema.Walk s choices t) : schema.Established t := by
  induction walk with
  | nil => exact established
  | cons allowed _ ih => exact ih (established.after allowed)

/-! ## Lists that describe a state that was reached -/

/--
A list that holds in a state that was reached from an initial one describes
this state, if it is within the scope and lists its placings and holdings.
-/
theorem Accepted.initialState_of_walk (accepted : schema.Accepted)
    (described : schema.initialState literals = .ok s) (walk : schema.Walk s choices t)
    {restated : List Literal} (known : ∀ l ∈ restated, l.fluent ∈ schema.scope)
    (holds : ∀ l ∈ restated, t.holds l = true)
    (listed : ∀ f ∈ t.facts, f.Arranges → .holds f ∈ restated) :
    schema.initialState restated = .ok t := by
  obtain ⟨sameScope, sane, ends⟩ := sane_of_initialState accepted described
  have later := (sane.positions_walk accepted walk ends).2
  have fits : schema.Fits restated t := by
    constructor
    case sane => exact sane.walk accepted walk
    case acyclic => exact State.acyclic_of_wellFounded later
    case known => exact known
    case holds => exact holds
    case listed => exact listed
    case established =>
      have start := accepted.fits_of_initialState described
      exact start.established.walk walk
  exact fits.initialState_eq accepted (walk.scope_eq.trans sameScope)

/--
The literals of every state that is reached from an initial state describe that
state again, and so do its placings and holdings alone.
-/
theorem restates_of_walk {objects : List DomainObject} {declared : List CategoryDeclaration}
    (built : Schema.build objects declared = .ok schema)
    (described : schema.initialState literals = .ok s) (walk : schema.Walk s choices t) :
    schema.initialState t.literals = .ok t ∧
      schema.initialState (t.literals.filter placesOrHolds) = .ok t := by
  have accepted := accepted_of_build built
  obtain ⟨sameScope, sane, _⟩ := sane_of_initialState accepted described
  have sameScope : t.scope = schema.scope := walk.scope_eq.trans sameScope
  have within := (sane.walk accepted walk).within
  have whole : ∀ f ∈ t.facts, .holds f ∈ t.literals := by
    intro f member
    refine List.mem_map.mpr ⟨f, ?_, ?_⟩
    · rw [← OrderedSet.mem_def, sameScope]
      exact within f member
    · rw [Literal.holds, State.isTrue, decide_eq_true member]
  have known : ∀ l ∈ t.literals, l.fluent ∈ schema.scope := by
    intro l member
    exact sameScope ▸ (State.holds_of_mem_literals member).1
  constructor
  · exact accepted.initialState_of_walk described walk known
      (fun l member => (State.holds_of_mem_literals member).2)
      (fun f member _ => whole f member)
  · apply accepted.initialState_of_walk described walk
    · intro l member
      exact known l (List.mem_filter.mp member).1
    · intro l member
      exact (State.holds_of_mem_literals (List.mem_filter.mp member).1).2
    · intro f member arranges
      exact List.mem_filter.mpr
        ⟨whole f member, placesOrHolds_eq_true_iff.mpr ⟨rfl, arranges⟩⟩

/-- That the disc was lifted can be stated by saying only that it is held. -/
theorem restates_of_walk_loneDisc :
    Search.loneDisc.initialState [.holds (.holding "a")] =
      .ok (Search.loneDiscStart.after Search.loneDiscLift) := by
  have restated := (restates_of_walk Search.build_loneDisc Search.initialState_loneDisc
    Search.walk_loneDiscLift).2
  have only : (Search.loneDiscStart.after Search.loneDiscLift).literals.filter placesOrHolds =
      [.holds (.holding "a")] := by decide
  rwa [only] at restated

end Schema

end StackingPlanner
