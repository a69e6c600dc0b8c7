import StackingPlanner.Proofs.Search.Successes
import StackingPlanner.Proofs.Tower.Solvable

/-!
# The finished tower

The goal of a tower puzzle only says what rests on what.  But where it holds
every disc rests on the next one or on the peg, and in a sane state everything
else follows from that: nothing is held, and nothing is clear but the top of the
tower and the other pegs.
-/

namespace StackingPlanner

namespace Puzzle

namespace Tower

variable {discs pegs order lower : List String} {schema : Schema} {s : State} {peg top x y : String}
  {placing goal initial : Placing} {wantedPeg : Option String}
  {wantedOrder : Option (List String)} {horizon name : Value} {d : Description}

/-! ## The placing of a tower -/

section Pairs

variable {α : Type} {a b last : α} {l : List α}

/-- What is in a list after its first item is directly below something. -/
theorem exists_pair_infix_cons {first : α} (member : b ∈ l) : ∃ a, [a, b] <:+: first :: l := by
  induction l generalizing first with
  | nil => cases member
  | cons second l ih =>
      rcases List.mem_cons.mp member with rfl | later
      · exact ⟨first, pair_infix_cons_cons_iff.mpr (.inl ⟨rfl, rfl⟩)⟩
      · obtain ⟨a, above⟩ : ∃ a, [a, b] <:+: second :: l := ih later
        exact ⟨a, pair_infix_cons_cons_iff.mpr (.inr above)⟩

theorem pair_infix_concat_iff :
    [a, b] <:+: l ++ [last] ↔ [a, b] <:+: l ∨ (l.getLast? = some a ∧ b = last) := by
  rw [List.infix_concat_iff, or_comm]
  refine or_congr Iff.rfl ⟨fun ending => ?_, ?_⟩
  · rcases List.suffix_concat_iff.mp ending with none | ⟨t, same, final⟩
    · cases none
    · obtain ⟨rfl, alone⟩ := @List.append_inj' α [a] [b] t [last] same rfl
      obtain ⟨before, shape⟩ := final
      exact ⟨List.getLast?_eq_some_iff.mpr ⟨before, shape.symm⟩, List.singleton_inj.mp alone⟩
  · rintro ⟨final, rfl⟩
    obtain ⟨before, rfl⟩ := List.getLast?_eq_some_iff.mp final
    exact ⟨before, by simp⟩

theorem mem_of_pair_infix_concat (above : [a, b] <:+: l ++ [last]) : a ∈ l := by
  rcases pair_infix_concat_iff.mp above with within | ⟨final, -⟩
  · exact within.subset List.mem_cons_self
  · exact List.mem_of_getLast? final

end Pairs

theorem mem_stacked_of_mem (member : (x, y) ∈ placing) (still : ∀ z, ¬ [x, z] <:+: order) :
    (x, y) ∈ stacked placing order := by
  fun_induction stacked placing order with
  | case1 placing upper lower rest ih =>
      have other : x ≠ upper := by
        rintro rfl
        exact still lower (pair_infix_cons_cons_iff.mpr (.inl ⟨rfl, rfl⟩))
      refine ih ?_ (fun z above => still z (pair_infix_cons_cons_iff.mpr (.inr above)))
      exact List.mem_append_left _ (List.mem_filter.mpr ⟨member, by simpa using other⟩)
  | case2 => exact member

theorem mem_stacked_of_infix (distinct : order.Nodup) (above : [x, y] <:+: order) :
    (x, y) ∈ stacked placing order := by
  fun_induction stacked placing order with
  | case1 placing upper lower rest ih =>
      obtain ⟨new, others⟩ := List.nodup_cons.mp distinct
      rcases pair_infix_cons_cons_iff.mp above with ⟨rfl, rfl⟩ | later
      · refine mem_stacked_of_mem (List.mem_append_right _ (List.mem_singleton_self _)) ?_
        exact fun z again => new (again.subset List.mem_cons_self)
      · exact ih others later
  | case2 order placing short =>
      have long := above.length_le
      cases order with
      | nil => cases long
      | cons upper rest =>
          cases rest with
          | nil => simp at long
          | cons lower rest => exact (short upper lower rest rfl).elim

/-- The placing of a tower is that of each disc on the next one, and of the last one on the peg. -/
theorem mem_tower_iff (distinct : order.Nodup) (built : tower order peg = .ok placing) :
    (x, y) ∈ placing ↔ [x, y] <:+: order ++ [peg] := by
  refine ⟨infix_of_mem_tower built, fun above => ?_⟩
  unfold tower at built
  split at built
  · rename_i bottom last
    cases built
    rcases pair_infix_concat_iff.mp above with within | ⟨final, rfl⟩
    · exact mem_stacked_of_infix distinct within
    · cases last.symm.trans final
      refine mem_stacked_of_mem (List.mem_singleton_self _) (fun z again => ?_)
      obtain ⟨upper, rfl⟩ := List.getLast?_eq_some_iff.mp last
      have twice := mem_of_pair_infix_concat again
      exact (List.nodup_append.mp distinct).2.2 x twice x (List.mem_singleton_self x) rfl
  · cases built

/-! ## What else is true -/

/-- In a sane state of a tower puzzle each disc of a tower rests on the next one or on the peg. -/
structure Finished (discs pegs order : List String) (peg : String) (schema : Schema) (s : State) :
    Prop where
  isSchema : IsSchema discs pegs schema
  sane : schema.Sane s
  isPeg : peg ∈ pegs
  reorders : order.Perm discs
  stands : ∀ x y, [x, y] <:+: order ++ [peg] → s.RestsOn x y

namespace Finished

variable (finished : Finished discs pegs order peg schema s)

include finished

theorem distinct : (order ++ [peg]).Nodup := by
  have once : discs.Nodup := (List.nodup_append.mp finished.isSchema.distinct).1
  exact finished.isSchema.nodup_concat finished.isPeg (finished.reorders.nodup_iff.mpr once)
    finished.reorders.subset

theorem restsOn_iff : s.RestsOn x y ↔ [x, y] <:+: order ++ [peg] := by
  refine ⟨fun rests => ?_, finished.stands x y⟩
  have isDisc := (finished.isSchema.known_of_restsOn finished.sane rests).1
  obtain ⟨z, above⟩ : ∃ z, [x, z] <:+: order ++ [peg] :=
    exists_infix_pair (finished.reorders.mem_iff.mpr isDisc)
  rwa [finished.sane.oneSupport x y z rests (finished.stands x z above)]

theorem not_held (x : String) : .holding x ∉ s.facts := by
  intro held
  have inScope := finished.sane.within _ held
  rw [finished.isSchema.accepted.scope_eq, Schema.mem_fluents_iff] at inScope
  obtain ⟨m, member, movable, rfl⟩ : ∃ m ∈ schema.members, m.category.movable = true ∧
      x = m.name := by
    simpa [Fluent.on, Fluent.clear, Fluent.handEmpty, Fluent.holding] using inScope
  rcases (finished.isSchema.mem_members_iff m).mp member with ⟨isDisc, -⟩ | ⟨-, fixed⟩
  · obtain ⟨y, above⟩ : ∃ y, [m.name, y] <:+: order ++ [peg] :=
      exists_infix_pair (finished.reorders.mem_iff.mpr isDisc)
    exact finished.sane.heldFree m.name y held (finished.stands m.name y above)
  · rw [fixed] at movable
    cases movable

end Finished

/-- In a finished tower everything is clear but what comes after the top. -/
theorem Finished.clear_iff (finished : Finished discs pegs (top :: lower) peg schema s) {m : Member}
    (member : m ∈ schema.members) : .clear m.name ∈ s.facts ↔ m.name ∉ lower ++ [peg] := by
  have tracked : m.category.tracksClear = true := by
    rcases (finished.isSchema.mem_members_iff m).mp member with ⟨-, same⟩ | ⟨-, same⟩ <;>
      (rw [same]; rfl)
  rw [finished.sane.clear m member tracked, and_iff_left (finished.not_held m.name)]
  constructor
  · intro bare below
    obtain ⟨w, above⟩ : ∃ w, [w, m.name] <:+: top :: (lower ++ [peg]) :=
      exists_pair_infix_cons below
    exact bare w (finished.stands w m.name above)
  · intro apart w rests
    exact apart (mem_of_pair_infix_cons (finished.restsOn_iff.mp rests))

/-- The facts in which a tower is finished: there is nothing else but the tower. -/
theorem Finished.facts_iff (finished : Finished discs pegs (top :: lower) peg schema s)
    (f : Fluent) :
    f ∈ s.facts ↔ (∃ x y, [x, y] <:+: top :: lower ++ [peg] ∧ f = .on x y) ∨ f = .clear top ∨
      (∃ p ∈ pegs, p ≠ peg ∧ f = .clear p) ∨ f = .handEmpty := by
  have isSchema := finished.isSchema
  have isDisc : ∀ x ∈ top :: lower, x ∈ discs := fun x => finished.reorders.mem_iff.mp
  constructor
  · intro holds
    have inScope := finished.sane.within f holds
    rw [isSchema.accepted.scope_eq, Schema.mem_fluents_iff] at inScope
    rcases inScope with ⟨m, member, -, rfl⟩ | rfl | ⟨m, -, -, rfl⟩ | ⟨m, -, n, -, -, rfl⟩
    · have apart := (finished.clear_iff member).mp holds
      rw [List.mem_append, not_or, List.mem_singleton] at apart
      rcases (isSchema.mem_members_iff m).mp member with ⟨known, -⟩ | ⟨isPeg, -⟩
      · rcases List.mem_cons.mp (finished.reorders.mem_iff.mpr known) with here | below
        · exact .inr (.inl (congrArg Fluent.clear here))
        · exact absurd below apart.1
      · exact .inr (.inr (.inl ⟨m.name, isPeg, apart.2, rfl⟩))
    · exact .inr (.inr (.inr rfl))
    · exact absurd holds (finished.not_held m.name)
    · exact .inl ⟨m.name, n.name, finished.restsOn_iff.mp holds, rfl⟩
  · rintro (⟨x, y, above, rfl⟩ | rfl | ⟨p, isPeg, differ, rfl⟩ | rfl)
    · exact finished.stands x y above
    · have member : ⟨top, disc⟩ ∈ schema.members :=
        (isSchema.mem_members_iff _).mpr (.inl ⟨isDisc top List.mem_cons_self, rfl⟩)
      exact (finished.clear_iff member).mpr (List.nodup_cons.mp finished.distinct).1
    · have member : ⟨p, Tower.peg⟩ ∈ schema.members :=
        (isSchema.mem_members_iff _).mpr (.inr ⟨isPeg, rfl⟩)
      refine (finished.clear_iff member).mpr (fun below => ?_)
      rcases List.mem_append.mp below with below | here
      · exact isSchema.not_disc isPeg (isDisc p (List.mem_cons_of_mem _ below))
      · exact differ (List.mem_singleton.mp here)
    · exact finished.sane.hand.mpr finished.not_held

/-! ## Every success -/

/--
Whenever a planner succeeds on a tower puzzle that is accepted, the final state
of its timeline shows just the tower: each disc on the next one and the last one
on the peg, as the goal says, the top disc and all other pegs clear, and the hand
empty.
-/
theorem final_facts_of_success {planner : Planner} {clock : Clock} {finding : Finding}
    (stated : description discs pegs initial horizon wantedPeg wantedOrder name = .ok d)
    (among : ∀ p, wantedPeg = some p → p ∈ pegs)
    (reorders : ∀ l, wantedOrder = some l → l.Perm discs)
    (returns : planner.ReturnsFor clock d (.ok finding)) {t : Timeline}
    (success : finding.verdict = .success t) :
    ∃ peg top last, targetPeg pegs wantedPeg = .ok peg ∧
      (towerOrder discs wantedOrder).head? = some top ∧ t.finalState = .ok last ∧
      (∀ l, l ∈ finding.problem.goal ↔
        ∃ x y, [x, y] <:+: towerOrder discs wantedOrder ++ [peg] ∧ l = .holds (.on x y)) ∧
      ∀ f, f ∈ last.facts ↔ .holds f ∈ finding.problem.goal ∨ f = .clear top ∨
        (∃ p ∈ pegs, p ≠ peg ∧ f = .clear p) ∨ f = .handEmpty := by
  obtain ⟨states, attains⟩ := Planner.attains_of_returnsFor returns
  obtain ⟨steps, last, trail, -, rfl, holds⟩ := attains t success
  obtain ⟨peg, goal, target, built, rfl⟩ := description_eq_ok_iff.mp stated
  obtain ⟨schemaBuilt, -, demanded, -⟩ := Description.problem_eq_ok_iff.mp states
  obtain ⟨accepted, -, sane⟩ := Description.sane_of_problem states
  have isSchema : IsSchema discs pegs finding.problem.schema := isSchema_of_build schemaBuilt
  have perm := towerOrder_perm reorders
  have once : (towerOrder discs wantedOrder).Nodup :=
    perm.nodup_iff.mpr (List.nodup_append.mp isSchema.distinct).1
  have demands : ∀ l, l ∈ finding.problem.goal ↔
      ∃ x y, [x, y] <:+: towerOrder discs wantedOrder ++ [peg] ∧ l = .holds (.on x y) := by
    intro l
    obtain ⟨_, _, listed⟩ := Except.exists_of_bind_eq_ok demanded
    rw [← Except.ok.inj listed, OrderedSet.mem_ofList]
    exact mem_literals_iff.trans (by simp only [mem_tower_iff once built])
  have finished : Finished discs pegs (towerOrder discs wantedOrder) peg finding.problem.schema
      last := by
    refine ⟨isSchema, sane.walk accepted trail.walk, mem_of_targetPeg among target, perm,
      fun x y above => ?_⟩
    have listed := (demands (.holds (.on x y))).mpr ⟨x, y, above, rfl⟩
    exact (State.holds_eq_true_iff.mp (List.all_eq_true.mp holds _ listed)).mpr rfl
  cases shape : towerOrder discs wantedOrder with
  | nil =>
      rw [shape] at built
      cases built
  | cons top lower =>
      rw [shape] at demands finished
      have onGoal : ∀ f, .holds f ∈ finding.problem.goal ↔
          ∃ x y, [x, y] <:+: top :: lower ++ [peg] ∧ f = .on x y := by
        intro f
        simp only [demands, Literal.holds, Literal.mk.injEq, and_true]
      refine ⟨peg, top, last, target, rfl, trail.finalState, demands, fun f => ?_⟩
      rw [onGoal]
      exact finished.facts_iff f

/-- The puzzle with one disc, which is to be moved to the last peg. -/
theorem description_loneDisc :
    description ["a"] ["p", "q"] [("a", "p")] (.whole 5) none none (.text "domain") =
      .ok Planner.loneDiscDescription := by
  have start : literals [("a", "p")] = [.holds (.on "a" "p")] :=
    List.mergeSort_of_pairwise (by decide)
  have target : literals [("a", "q")] = [.holds (.on "a" "q")] :=
    List.mergeSort_of_pairwise (by decide)
  refine description_eq_ok_iff.mpr ⟨"q", [("a", "q")], rfl, rfl, ?_⟩
  rw [start, target]
  rfl

/-- Two workers move the disc to the second peg, and then the first one is clear. -/
theorem final_facts_of_success_loneDisc :
    ∃ finding t last,
      Planner.pair.ReturnsFor .still Planner.loneDiscDescription (.ok finding) ∧
        finding.verdict = .success t ∧ t.finalState = .ok last ∧ .clear "p" ∈ last.facts := by
  have always : Planner.pair.AlwaysFinds .still Planner.loneDiscDescription _ :=
    Planner.alwaysFinds_of_copes rfl Planner.problem_loneDiscDescription
      (.inl Planner.hasRoom_pair.roomy) .still
  obtain ⟨⟨result, returns⟩, finds⟩ := always
  obtain ⟨finding, rfl, verdict⟩ := finds result returns
  have reachable : (Search.plain? Branching.loneDiscProblem).isSome = true := by
    decide +kernel
  obtain ⟨steps, found⟩ := Option.isSome_iff_exists.mp reachable
  have success : finding.verdict = .success (Timeline.ofSteps Search.loneDiscStart steps) :=
    verdict.trans (congrArg (Verdict.ofSteps? Search.loneDiscStart) found)
  obtain ⟨peg, top, last, target, -, final, -, facts⟩ :=
    final_facts_of_success description_loneDisc (by simp) (by simp) returns success
  cases target
  refine ⟨finding, _, last, returns, success, final, (facts _).mpr ?_⟩
  exact .inr (.inr (.inl ⟨"p", by decide, by decide, rfl⟩))

end Tower

end Puzzle

end StackingPlanner
