import StackingPlanner.Proofs.Description.Failures
import StackingPlanner.Proofs.Schema.Positions

/-!
# What a list of literals describes

A list of literals describes a sane state without cycles if it holds there, if
it lists all placings and holdings of the state, and if some action brings each
of these about.  There is at most one such state, and it is found exactly if it
exists: the checks of the list, those of the arrangement that it names and the
comparison of the two find something wrong in all other cases.
-/

namespace StackingPlanner

/-- The fluents on which an arrangement says something: placings and holdings. -/
def Fluent.Arranges (f : Fluent) : Prop := f.name = "on" ∨ f.name = "holding"

/-- A literal holds in a state if its fluent is a fact exactly if it is positive. -/
theorem State.holds_eq_true_iff {s : State} {l : Literal} :
    s.holds l = true ↔ (l.fluent ∈ s.facts ↔ l.positive = true) := by
  rw [holds, isTrue, beq_iff_eq, Bool.eq_iff_iff, decide_eq_true_eq]

/-- Where no chain of supports goes on forever, no object rests on itself through others. -/
theorem State.acyclic_of_wellFounded {s : State} (ends : WellFounded (fun b a => s.RestsOn a b))
    (x : String) : ¬ Relation.TransGen s.RestsOn x x := by
  intro cycle
  exact ends.transGen.irrefl.irrefl x (Relation.transGen_swap.mp cycle)

namespace Schema

variable {schema : Schema} {s : State} {literals : List Literal}

theorem placesOrHolds_eq_true_iff {l : Literal} :
    placesOrHolds l = true ↔ l.positive = true ∧ l.fluent.Arranges := by
  simp [placesOrHolds, Fluent.Arranges]

theorem Accepted.eq_of_arranges (accepted : schema.Accepted) {f : Fluent}
    (inScope : f ∈ schema.scope) (arranges : f.Arranges) :
    (∃ x y, f = .on x y) ∨ ∃ x, f = .holding x := by
  rw [accepted.scope_eq, mem_fluents_iff] at inScope
  rcases inScope with ⟨m, _, _, rfl⟩ | rfl | ⟨m, _, _, rfl⟩ | ⟨x, _, y, _, _, rfl⟩
  · simp [Fluent.Arranges, Fluent.clear] at arranges
  · simp [Fluent.Arranges, Fluent.handEmpty] at arranges
  · exact .inr ⟨m.name, rfl⟩
  · exact .inl ⟨x.name, y.name, rfl⟩

/-- A fluent in scope that does not arrange objects follows from where they are. -/
theorem Accepted.follows_of_not_arranges (accepted : schema.Accepted) {f : Fluent}
    (inScope : f ∈ schema.scope) (other : ¬ f.Arranges) :
    f.name = "clear" ∨ f.name = "handempty" := by
  rw [accepted.scope_eq, mem_fluents_iff] at inScope
  rcases inScope with ⟨m, _, _, rfl⟩ | rfl | ⟨m, _, _, rfl⟩ | ⟨x, _, y, _, _, rfl⟩
  · exact .inl rfl
  · exact .inr rfl
  · exact absurd (.inr rfl) other
  · exact absurd (.inl rfl) other

/-! ## The checks of an arrangement that is read off a sane state -/

section Arranging

variable {facts : OrderedSet Fluent} (sane : schema.Sane s) (accepted : schema.Accepted)
  (within : ∀ f ∈ facts, f ∈ schema.scope)
  (sameOn : ∀ x y, .on x y ∈ facts ↔ .on x y ∈ s.facts)
  (sameHeld : ∀ x, .holding x ∈ facts ↔ .holding x ∈ s.facts)

include sane accepted within sameOn

theorem Sane.placedTwice?_eq_none :
    Arrangement.placedTwice? [] (Arrangement.ofFacts facts).links = none := by
  refine Arrangement.placedTwice?_eq_none_iff.mpr ⟨fun _ _ => rfl, ?_⟩
  refine (links_nodup accepted within).imp_of_mem ?_
  rintro ⟨x, y⟩ ⟨x', z⟩ first second differ rfl
  rw [mem_links_iff accepted within, sameOn] at first second
  exact differ (by rw [sane.oneSupport x y z first second])

theorem Sane.overloaded?_eq_none :
    (Arrangement.ofFacts facts).overloaded? schema = none := by
  rw [Arrangement.overloaded?, Option.map_eq_none_iff, List.find?_eq_none]
  rintro ⟨x, y⟩ _
  rw [Bool.and_eq_true, decide_eq_true_eq, not_and, Nat.not_lt]
  intro tracks
  cases found : schema.member? y with
  | none =>
      rw [found, Option.any_none] at tracks
      cases tracks
  | some m =>
      rw [found, Option.any_some] at tracks
      have named : m.name = y := by simpa using List.find?_some found
      apply (occupants_length_le_iff (s := ⟨schema.scope, facts⟩) accepted within).mpr
      intro a b ha hb
      rw [sameOn, ← named] at ha hb
      exact sane.oneOccupant m (List.mem_of_find?_eq_some found) tracks a b ha hb

include sameHeld in
theorem Sane.checkHeld_eq_ok : (Arrangement.ofFacts facts).checkHeld = .ok () := by
  have held : ∀ x, x ∈ (Arrangement.ofFacts facts).held ↔ .holding x ∈ s.facts := by
    intro x
    rw [mem_held_iff accepted within, sameHeld]
  have few : (Arrangement.ofFacts facts).held.length ≤ 1 := by
    rw [List.Nodup.length_le_one_iff (held_nodup accepted within)]
    intro x hx y hy
    exact sane.oneHeld x y ((held x).mp hx) ((held y).mp hy)
  unfold Arrangement.checkHeld
  split
  · rfl
  · rename_i x only
    have isHeld : .holding x ∈ s.facts := (held x).mp (by simp [only])
    have free : (Arrangement.ofFacts facts).links.lookup x = none := by
      rw [List.lookup_eq_none_iff]
      rintro ⟨a, b⟩ link
      rw [mem_links_iff accepted within, sameOn] at link
      rw [bne_iff_ne]
      rintro rfl
      exact sane.heldFree _ _ isHeld link
    have bare : ((Arrangement.ofFacts facts).occupants x).isEmpty = true := by
      apply (occupants_isEmpty_iff (s := ⟨schema.scope, facts⟩) accepted within).mpr
      intro a carried
      exact sane.heldBare _ _ isHeld ((sameOn a x).mp carried)
    rw [free]
    exact if_pos bare
  · rename_i none one
    rcases Nat.le_one_iff_eq_zero_or_eq_one.mp few with zero | single
    · exact absurd (List.length_eq_zero_iff.mp zero) none
    · obtain ⟨x, only⟩ := List.length_eq_one_iff.mp single
      exact absurd only (one x)

include sameHeld in
/-- The arrangement of a sane state without cycles passes its checks. -/
theorem Sane.check_eq_ok (acyclic : ∀ x, ¬ Relation.TransGen s.RestsOn x x) :
    (Arrangement.ofFacts facts).check schema = .ok () := by
  have linked : ∀ x y, (Arrangement.ofFacts facts).links.To x y → s.RestsOn x y := by
    intro x y link
    exact (sameOn x y).mp ((mem_links_iff accepted within).mp link)
  refine Arrangement.check_eq_ok_iff.mpr ⟨sane.placedTwice?_eq_none accepted within sameOn,
    sane.checkHeld_eq_ok accepted within sameOn sameHeld,
    sane.overloaded?_eq_none accepted within sameOn, ?_⟩
  apply Links.cycleStart?_eq_none_of_acyclic
  intro x cycle
  exact acyclic x (Relation.TransGen.mono linked _ _ cycle)

end Arranging

/-! ## The state that a list of literals describes -/

/-- The literals on clear objects and the empty hand agree with the facts. -/
theorem contradicted?_eq_none_iff {facts : OrderedSet Fluent} :
    contradicted? facts literals = none ↔ ∀ l ∈ literals,
      l.fluent.name = "clear" ∨ l.fluent.name = "handempty" →
        (l.fluent ∈ facts ↔ l.positive = true) := by
  have agrees : ∀ l : Literal, decide (l.fluent ∈ facts) = l.positive ↔
      (l.fluent ∈ facts ↔ l.positive = true) := by
    intro l
    rw [Bool.eq_iff_iff, decide_eq_true_eq]
  simp only [contradicted?, List.find?_eq_none, Bool.and_eq_true, Bool.or_eq_true,
    decide_eq_true_eq, not_and, bne_iff_ne, Classical.not_not, agrees]

/-- All placings and holdings of a state are such as some action brings about. -/
def Established (schema : Schema) (s : State) : Prop :=
  ∀ f ∈ s.facts, f.Arranges → schema.Establishes f

/--
A list of literals holds in a sane state without cycles and lists its placings
and holdings, each of which some action brings about.
-/
structure Fits (schema : Schema) (literals : List Literal) (s : State) : Prop where
  sane : schema.Sane s
  acyclic : ∀ x, ¬ Relation.TransGen s.RestsOn x x
  known : ∀ l ∈ literals, l.fluent ∈ schema.scope
  holds : ∀ l ∈ literals, s.holds l = true
  listed : ∀ f ∈ s.facts, f.Arranges → .holds f ∈ literals
  established : schema.Established s

theorem Accepted.mem_facts_iff_listed (accepted : schema.Accepted)
    (known : ∀ l ∈ literals, l.fluent ∈ schema.scope) {f : Fluent} (inScope : f ∈ schema.scope)
    (arranges : f.Arranges) :
    f ∈ (Arrangement.ofFacts (listedFacts literals)).facts schema ↔ .holds f ∈ literals := by
  have within := mem_scope_of_mem_listedFacts known
  rcases accepted.eq_of_arranges inScope arranges with ⟨x, y, rfl⟩ | ⟨x, rfl⟩
  · rw [Arrangement.on_mem_facts_iff, mem_links_iff accepted within, mem_listedFacts_iff]
  · rw [Arrangement.holding_mem_facts_iff, mem_held_iff accepted within, mem_listedFacts_iff]

/-- A state that a list of literals describes fits the list. -/
theorem Accepted.fits_of_initialState (accepted : schema.Accepted)
    (described : schema.initialState literals = .ok s) : schema.Fits literals s := by
  obtain ⟨_, sane, ends⟩ := sane_of_initialState accepted described
  obtain ⟨checked, _, consistent, rfl⟩ := initialState_eq_ok_iff.mp described
  obtain ⟨known, noClash, required⟩ := (checkLiterals_eq_ok_iff accepted).mp checked
  have listed : ∀ f ∈ schema.scope, f.Arranges → _ := fun f inScope arranges =>
    accepted.mem_facts_iff_listed known inScope arranges
  constructor
  case sane => exact sane
  case acyclic => exact State.acyclic_of_wellFounded ends
  case known => exact known
  case holds =>
    rintro ⟨f, positive⟩ member
    have inScope : f ∈ schema.scope := known _ member
    rw [State.holds_eq_true_iff]
    by_cases arranges : f.Arranges
    · rw [listed f inScope arranges]
      cases positive with
      | true => exact iff_of_true member rfl
      | false => exact iff_of_false (fun holds => noClash f holds member) Bool.false_ne_true
    · exact contradicted?_eq_none_iff.mp consistent _ member
        (accepted.follows_of_not_arranges inScope arranges)
  case listed =>
    intro f member arranges
    exact (listed f (sane.within f member) arranges).mp member
  case established =>
    intro f member arranges
    have demanded := (listed f (sane.within f member) arranges).mp member
    exact required _ demanded (placesOrHolds_eq_true_iff.mpr ⟨rfl, arranges⟩)

/-- A list of literals describes every state that fits it. -/
theorem Fits.initialState_eq (fits : schema.Fits literals s) (accepted : schema.Accepted)
    (sameScope : s.scope = schema.scope) : schema.initialState literals = .ok s := by
  have within := mem_scope_of_mem_listedFacts fits.known
  have sameFacts : ∀ f, f.Arranges → (f ∈ listedFacts literals ↔ f ∈ s.facts) := by
    intro f arranges
    rw [mem_listedFacts_iff]
    constructor
    · intro listed
      exact (State.holds_eq_true_iff.mp (fits.holds _ listed)).mpr rfl
    · intro member
      exact fits.listed f member arranges
  have sameOn : ∀ x y, .on x y ∈ listedFacts literals ↔ .on x y ∈ s.facts := fun x y =>
    sameFacts _ (.inl rfl)
  have sameHeld : ∀ x, .holding x ∈ listedFacts literals ↔ .holding x ∈ s.facts := fun x =>
    sameFacts _ (.inr rfl)
  have passes := fits.sane.check_eq_ok accepted within sameOn sameHeld fits.acyclic
  have checked : schema.checkLiterals "initial" literals = .ok () := by
    refine (checkLiterals_eq_ok_iff accepted).mpr ⟨fits.known, fun f holds fails => ?_, ?_⟩
    · have isTrue := (State.holds_eq_true_iff.mp (fits.holds _ holds)).mpr rfl
      cases (State.holds_eq_true_iff.mp (fits.holds _ fails)).mp isTrue
    · intro l member demanded
      obtain ⟨positive, arranges⟩ := placesOrHolds_eq_true_iff.mp demanded
      have isTrue := (State.holds_eq_true_iff.mp (fits.holds l member)).mpr positive
      exact fits.established l.fluent isTrue arranges
  have complete : s.facts = (Arrangement.ofFacts (listedFacts literals)).facts schema := by
    apply fits.sane.facts_eq (sane_of_check accepted (covers_of_within accepted within) passes)
      accepted
    case sameOn =>
      intro x y
      rw [Arrangement.on_mem_facts_iff, mem_links_iff accepted within, sameOn]
    case sameHeld =>
      intro x
      rw [Arrangement.holding_mem_facts_iff, mem_held_iff accepted within, sameHeld]
  have consistent : contradicted? s.facts literals = none := by
    apply contradicted?_eq_none_iff.mpr
    intro l member _
    exact State.holds_eq_true_iff.mp (fits.holds l member)
  exact initialState_eq_ok_iff.mpr
    ⟨checked, passes, consistent, State.eq_of_facts_eq sameScope complete⟩

/-- A list of literals describes exactly the states over the scope of the schema that fit it. -/
theorem Accepted.initialState_eq_ok_iff_fits (accepted : schema.Accepted) :
    schema.initialState literals = .ok s ↔ s.scope = schema.scope ∧ schema.Fits literals s := by
  constructor
  · intro described
    exact ⟨(sane_of_initialState accepted described).1, accepted.fits_of_initialState described⟩
  · rintro ⟨sameScope, fits⟩
    exact fits.initialState_eq accepted sameScope

/-! ## Sets of fluents that a list of literals describes -/

/--
A set of fluents in scope is an arrangement that a list of literals describes:
the literals hold in it, its placings and holdings are those that are listed,
no check finds anything wrong with it, no object rests on itself through others,
and whatever is held may rest somewhere.
-/
structure Describes (schema : Schema) (literals : List Literal) (facts : OrderedSet Fluent) :
    Prop where
  within : ∀ f ∈ facts, f ∈ schema.scope
  known : ∀ l ∈ literals, l.fluent ∈ schema.scope
  holds : ∀ l ∈ literals, State.holds ⟨schema.scope, facts⟩ l = true
  listed : ∀ f, f.Arranges → (f ∈ facts ↔ .holds f ∈ literals)
  inspected : schema.inspect ⟨schema.scope, facts⟩ = .ok []
  acyclic : ∀ x, ¬ Relation.TransGen (State.RestsOn ⟨schema.scope, facts⟩) x x
  holdable : ∀ x, .holding x ∈ facts → ∃ y, schema.canSupport y x = .ok true

/-- Where operators serve all objects, whatever may rest somewhere can be brought about. -/
theorem describes_iff_fits (accepted : schema.Accepted)
    (serves : ∀ m ∈ schema.members, m.category.serves = true) {facts : OrderedSet Fluent} :
    schema.Describes literals facts ↔ schema.Fits literals ⟨schema.scope, facts⟩ := by
  constructor
  · intro describes
    constructor
    case sane => exact (inspect_eq_nil_iff accepted describes.within).mp describes.inspected
    case acyclic => exact describes.acyclic
    case known => exact describes.known
    case holds => exact describes.holds
    case listed =>
      intro f member arranges
      exact (describes.listed f arranges).mp member
    case established =>
      intro f member arranges
      have inScope := describes.within f member
      rcases accepted.eq_of_arranges inScope arranges with ⟨x, y, rfl⟩ | ⟨x, rfl⟩
      · exact establishes_on accepted serves ((canSupport_eq_true_iff accepted).mpr inScope)
      · obtain ⟨y, supports⟩ := describes.holdable x member
        exact establishes_holding accepted serves supports
  · intro fits
    constructor
    case within => exact fits.sane.within
    case known => exact fits.known
    case holds => exact fits.holds
    case listed =>
      intro f arranges
      constructor
      · intro member
        exact fits.listed f member arranges
      · intro listed
        exact (State.holds_eq_true_iff.mp (fits.holds _ listed)).mpr rfl
    case inspected => exact (inspect_eq_nil_iff accepted fits.sane.within).mpr fits.sane
    case acyclic => exact fits.acyclic
    case holdable =>
      intro x held
      exact (fits.established _ held (.inr rfl)).canSupport accepted

/--
If the categories declare as truth values what can be moved, a list of literals
is accepted exactly if it describes an arrangement.  There is at most one that
it describes, and that is the initial state.  Any other list is refused with a
failure that blames the description.
-/
theorem initialState_describes {objects : List DomainObject}
    {declared : List CategoryDeclaration} (built : Schema.build objects declared = .ok schema)
    (typed : ∀ d ∈ declared, d.movable.truth?.isSome = true) (literals : List Literal) :
    (∀ s, schema.initialState literals = .ok s ↔
        s.scope = schema.scope ∧ schema.Describes literals s.facts) ∧
      (∀ S T, schema.Describes literals S → schema.Describes literals T → S = T) ∧
        ((∀ S, ¬ schema.Describes literals S) →
          ∃ failure, schema.initialState literals = .error failure ∧
            failure.report.isConfiguration = true) := by
  have accepted := accepted_of_build built
  have serves := serves_of_build built typed
  have described : ∀ s, schema.initialState literals = .ok s ↔
      s.scope = schema.scope ∧ schema.Describes literals s.facts := by
    rintro ⟨scope, facts⟩
    rw [accepted.initialState_eq_ok_iff_fits, describes_iff_fits accepted serves]
    apply and_congr_right
    rintro rfl
    exact Iff.rfl
  refine ⟨described, fun S T first second => ?_, fun none => ?_⟩
  · have found := (described ⟨schema.scope, S⟩).mpr ⟨rfl, first⟩
    have other := (described ⟨schema.scope, T⟩).mpr ⟨rfl, second⟩
    exact congrArg State.facts (Except.ok.inj (found.symm.trans other))
  · cases result : schema.initialState literals with
    | ok s => exact absurd ((described s).mp result).2 (none s.facts)
    | error failure =>
        exact ⟨failure, rfl, (schema.initialState_blames literals).report result trivial⟩

/-- A disc that is said to rest on the first peg describes one arrangement. -/
theorem initialState_describes_loneDisc :
    Search.loneDisc.Describes [.holds (.on "a" "p")] Search.loneDiscStart.facts ∧
      ∀ S, Search.loneDisc.Describes [.holds (.on "a" "p")] S → S = Search.loneDiscStart.facts := by
  obtain ⟨described, unique, _⟩ :=
    initialState_describes Search.build_loneDisc (by decide) [.holds (.on "a" "p")]
  have start := ((described _).mp Search.initialState_loneDisc).2
  exact ⟨start, fun S other => unique S _ other start⟩

end Schema

end StackingPlanner
