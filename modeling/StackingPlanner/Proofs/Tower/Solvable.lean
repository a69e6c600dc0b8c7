import StackingPlanner.Proofs.Planner.Horizon
import StackingPlanner.Proofs.Tower.Gather

/-!
# Tower puzzles are solvable

With at least three pegs the tower can be built from wherever the discs are:
they are gathered on one peg that is not to carry the tower, and with another
one to put discs aside the tower is built on the one that is to carry it.  So
every tower puzzle has a least horizon, from which on planners without bounds
find a plan.
-/

namespace StackingPlanner

namespace Puzzle

namespace Tower

variable {discs pegs order : List String} {schema : Schema} {s : State} {peg x y : String}
  {placing initial : Placing} {wantedPeg : Option String} {wantedOrder : Option (List String)}
  {horizon name : Value} {d : Description} {problem : Problem}

/-! ## What the goal of a tower puzzle demands -/

theorem mem_stacked (member : (x, y) ∈ stacked placing order) :
    (x, y) ∈ placing ∨ [x, y] <:+: order := by
  fun_induction stacked placing order with
  | case1 placing upper lower rest ih =>
      rcases ih member with moved | below
      · rcases List.mem_append.mp moved with kept | new
        · exact .inl (List.mem_filter.mp kept).1
        · cases List.mem_singleton.mp new
          exact .inr (pair_infix_cons_cons_iff.mpr (.inl ⟨rfl, rfl⟩))
      · exact .inr (pair_infix_cons_cons_iff.mpr (.inr below))
  | case2 => exact .inl member

/-- In a tower each disc is on the next one, and the last one is on the peg. -/
theorem infix_of_mem_tower (built : tower order peg = .ok placing) (member : (x, y) ∈ placing) :
    [x, y] <:+: order ++ [peg] := by
  unfold tower at built
  split at built
  · rename_i bottom last
    cases built
    rcases mem_stacked member with single | within
    · cases List.mem_singleton.mp single
      obtain ⟨upper, rfl⟩ := List.getLast?_eq_some_iff.mp last
      exact ⟨upper, [], by simp⟩
    · exact within.trans (List.prefix_append order [peg]).isInfix
  · cases built

theorem mem_of_targetPeg (among : ∀ p, wantedPeg = some p → p ∈ pegs)
    (found : targetPeg pegs wantedPeg = .ok peg) : peg ∈ pegs := by
  unfold targetPeg at found
  split at found
  · rename_i wanted
    cases found
    exact among _ (Option.filter_eq_some_iff.mp wanted).1
  · split at found
    · rename_i last
      cases found
      exact List.mem_of_getLast? last
    · cases found

theorem towerOrder_perm (reorders : ∀ l, wantedOrder = some l → l.Perm discs) :
    (towerOrder discs wantedOrder).Perm discs := by
  unfold towerOrder
  split
  · exact reorders _ rfl
  · exact .refl discs

theorem description_eq_ok_iff :
    description discs pegs initial horizon wantedPeg wantedOrder name = .ok d ↔
      ∃ peg goal, targetPeg pegs wantedPeg = .ok peg ∧
        tower (towerOrder discs wantedOrder) peg = .ok goal ∧
          d = { categories, objects := declare "disc" discs ++ declare "peg" pegs,
                initial := literals initial, goal := literals goal, horizon, name } := by
  constructor
  · intro stated
    obtain ⟨peg, target, stated⟩ := Except.exists_of_bind_eq_ok stated
    obtain ⟨goal, built, stated⟩ := Except.exists_of_bind_eq_ok stated
    exact ⟨peg, goal, target, built, (Except.ok.inj stated).symm⟩
  · rintro ⟨peg, goal, target, built, rfl⟩
    rw [description, target]
    change (tower (towerOrder discs wantedOrder) peg >>= _) = _
    rw [built]
    rfl

/-! ## The tower can be built -/

/-- Of three or more pegs there are two besides any one of them. -/
theorem exists_others (distinct : pegs.Nodup) (isPeg : peg ∈ pegs) (three : 3 ≤ pegs.length) :
    ∃ floor beside, [floor, beside, peg].Nodup ∧ ∀ p ∈ [floor, beside, peg], p ∈ pegs := by
  have order := List.perm_cons_erase isPeg
  have count := order.length_eq
  match shape : pegs.erase peg with
  | [] | [_] =>
      rw [shape] at count
      simp only [List.length_cons, List.length_nil] at count
      omega
  | floor :: beside :: rest =>
      have moved : [floor, beside, peg].Perm [peg, floor, beside] :=
        List.perm_append_singleton peg [floor, beside]
      have first : [peg, floor, beside] <+: peg :: pegs.erase peg := ⟨rest, by rw [shape]; rfl⟩
      refine ⟨floor, beside, ?_, fun p member => ?_⟩
      · exact moved.nodup_iff.mpr ((order.nodup_iff.mp distinct).sublist first.sublist)
      · exact order.mem_iff.mpr (first.subset (moved.mem_iff.mp member))

/-- With at least three pegs the discs can be brought into any order on any peg. -/
theorem IsSchema.exists_tower (isSchema : IsSchema discs pegs schema) (sane : schema.Sane s)
    (free : .handEmpty ∈ s.facts) (ends : WellFounded (fun b a => s.RestsOn a b))
    (placed : ∀ x ∈ discs, ∃ y, s.RestsOn x y) (three : 3 ≤ pegs.length) (isPeg : peg ∈ pegs)
    (reorders : order.Perm discs) :
    ∃ t, schema.Leads s t ∧ ∀ x y, [x, y] <:+: order ++ [peg] → t.RestsOn x y := by
  obtain ⟨floor, beside, distinct, onPegs⟩ :=
    exists_others (List.nodup_append.mp isSchema.distinct).2.1 isPeg three
  have start : Gathered discs schema floor s [] :=
    ⟨sane, free, ends, placed, List.isChain_singleton floor, .nil, List.nil_subset discs⟩
  obtain ⟨t, all, gathering, gathered, complete⟩ :=
    start.exists_all isSchema (onPegs floor List.mem_cons_self)
  obtain ⟨u, rebuilding, piled⟩ := (gathered.piled isSchema complete distinct onPegs).exists_rebuild
    isSchema (reorders.trans complete.symm)
  exact ⟨u, gathering.trans rebuilding, fun x y above =>
    (piled.rests_iff x y).mpr ⟨_, by simp, above⟩⟩

/-! ## Planners find a plan -/

theorem mem_literals_iff {l : Literal} :
    l ∈ literals placing ↔ ∃ x y, (x, y) ∈ placing ∧ l = .holds (.on x y) := by
  simp only [literals, sorted, List.mem_mergeSort, List.mem_map, Prod.exists, eq_comm]

theorem start_of_literals (accepted : schema.Accepted)
    (described : schema.initialState (literals placing) = .ok s) :
    .handEmpty ∈ s.facts ∧ ∀ x y, (x, y) ∈ placing → s.RestsOn x y := by
  have fits := accepted.fits_of_initialState described
  constructor
  · refine fits.sane.hand.mpr (fun x held => ?_)
    obtain ⟨_, _, _, same⟩ := mem_literals_iff.mp (fits.listed _ held (.inr rfl))
    simp [Literal.holds, Fluent.on, Fluent.holding] at same
  · intro x y member
    have holds := fits.holds _ (mem_literals_iff.mpr ⟨x, y, member, rfl⟩)
    exact (State.holds_eq_true_iff.mp holds).mpr rfl

/--
Every tower puzzle with at least three pegs whose description is accepted and
places every disc has a least horizon: with that horizon or a longer one every
planner without bounds whose table has room finds a plan, and with a shorter one
it finds that there is none.
-/
theorem solvable_from_leastHorizon
    (stated : description discs pegs initial horizon wantedPeg wantedOrder name = .ok d)
    (three : 3 ≤ pegs.length) (among : ∀ p, wantedPeg = some p → p ∈ pegs)
    (reorders : ∀ l, wantedOrder = some l → l.Perm discs)
    (placed : ∀ x ∈ discs, ∃ y, (x, y) ∈ initial) (states : d.problem = .ok problem) :
    ∃ least : Nat, 1 ≤ least ∧ ∀ (planner : Planner) (clock : Clock),
      planner.settings.budget.unlimited = true → planner.settings.HasRoom →
        (∀ horizon : Nat, 1 ≤ horizon → horizon < least →
          planner.AlwaysFinds clock (d.withHorizon (.whole horizon)) (· = .noPlan)) ∧
        ∀ horizon : Nat, least ≤ horizon →
          planner.AlwaysFinds clock (d.withHorizon (.whole horizon)) (·.isSuccess = true) := by
  obtain ⟨peg, goal, target, built, rfl⟩ := description_eq_ok_iff.mp stated
  obtain ⟨schemaBuilt, described, demanded, -⟩ := Description.problem_eq_ok_iff.mp states
  have isSchema : IsSchema discs pegs problem.schema := isSchema_of_build schemaBuilt
  obtain ⟨-, sane, ends⟩ := Schema.sane_of_initialState isSchema.accepted described
  obtain ⟨free, start⟩ := start_of_literals isSchema.accepted described
  obtain ⟨t, ⟨choices, walk⟩, rests⟩ := isSchema.exists_tower sane free ends
    (fun x isDisc => (placed x isDisc).imp (fun y => start x y)) three
    (mem_of_targetPeg among target) (towerOrder_perm reorders)
  obtain ⟨_, _, listed⟩ := Except.exists_of_bind_eq_ok demanded
  have met : t.satisfies problem.goal.toList = true := by
    refine List.all_eq_true.mpr (fun l member => ?_)
    have demands : l ∈ literals goal := by
      rw [← Except.ok.inj listed] at member
      exact OrderedSet.mem_ofList.mp member
    obtain ⟨x, y, inTower, rfl⟩ := mem_literals_iff.mp demands
    exact State.holds_eq_true_iff.mpr
      (iff_of_true (rests x y (infix_of_mem_tower built inTower)) rfl)
  exact Planner.exists_leastHorizon states ⟨choices, t, rfl, walk, met⟩

/-! ## Two discs on three pegs -/

/-- The discs rest on two pegs, and the second one is to rest on the first one, where it is now. -/
def twoDiscs : Description where
  categories := categories
  objects := declare "disc" ["a", "b"] ++ declare "peg" ["p", "q", "r"]
  initial := literals [("a", "p"), ("b", "q")]
  goal := literals [("a", "q"), ("b", "a")]
  horizon := .whole 9
  name := defaultName

theorem description_twoDiscs :
    description ["a", "b"] ["p", "q", "r"] [("a", "p"), ("b", "q")] (.whole 9) (some "q")
      (some ["b", "a"]) defaultName = .ok twoDiscs := rfl

def twoDiscsSchema : Schema :=
  Schema.ofMembers [disc, Tower.peg]
    [⟨"a", disc⟩, ⟨"b", disc⟩, ⟨"p", Tower.peg⟩, ⟨"q", Tower.peg⟩, ⟨"r", Tower.peg⟩]

theorem build_twoDiscs : twoDiscs.schema = .ok twoDiscsSchema := by
  have order : sorted twoDiscs.objects = twoDiscs.objects := List.mergeSort_of_pairwise (by decide)
  rw [Description.schema, Schema.build, order]
  rfl

theorem check_twoDiscs :
    (Arrangement.mk [("a", "p"), ("b", "q")] []).check twoDiscsSchema = .ok () := by
  refine Arrangement.check_eq_ok_iff.mpr ⟨rfl, rfl, rfl, ?_⟩
  refine List.find?_eq_none.mpr (fun x member => ?_)
  rw [Bool.not_eq_true]
  rcases List.mem_pair.mp (List.mem_mergeSort.mp member) with rfl | rfl
  · rw [Links.runsIntoCycle_follow List.not_mem_nil rfl]
    exact Links.runsIntoCycle_rest (by decide) rfl
  · rw [Links.runsIntoCycle_follow List.not_mem_nil rfl]
    exact Links.runsIntoCycle_rest (by decide) rfl

theorem problem_twoDiscs : ∃ problem, twoDiscs.problem = .ok problem := by
  have initial : twoDiscs.initial = [.holds (.on "a" "p"), .holds (.on "b" "q")] :=
    List.mergeSort_of_pairwise (by decide)
  have goal : twoDiscs.goal = [.holds (.on "a" "q"), .holds (.on "b" "a")] :=
    List.mergeSort_of_pairwise (by decide)
  obtain ⟨s, described⟩ : ∃ s, twoDiscsSchema.initialState twoDiscs.initial = .ok s := by
    rw [initial]
    exact ⟨_, Schema.initialState_eq_ok_iff.mpr ⟨rfl, check_twoDiscs, rfl, rfl⟩⟩
  obtain ⟨g, demanded⟩ : ∃ g, twoDiscsSchema.goal twoDiscs.goal = .ok g := by
    rw [goal]
    exact ⟨_, rfl⟩
  exact ⟨⟨twoDiscsSchema, s, g, 9, by decide⟩,
    Description.problem_eq_ok_iff.mpr ⟨build_twoDiscs, described, demanded, rfl⟩⟩

theorem solvable_from_leastHorizon_twoDiscs :
    ∃ least : Nat, 1 ≤ least ∧
      (∀ horizon : Nat, 1 ≤ horizon → horizon < least →
        Planner.pair.AlwaysFinds .still (twoDiscs.withHorizon (.whole horizon)) (· = .noPlan)) ∧
      ∀ horizon : Nat, least ≤ horizon →
        Planner.pair.AlwaysFinds .still (twoDiscs.withHorizon (.whole horizon))
          (·.isSuccess = true) := by
  obtain ⟨problem, states⟩ := problem_twoDiscs
  obtain ⟨least, positive, sharp⟩ := solvable_from_leastHorizon description_twoDiscs (by decide)
    (by simp) (by simpa using List.Perm.swap "a" "b" []) (by simp) states
  exact ⟨least, positive, sharp Planner.pair .still rfl Planner.hasRoom_pair⟩

end Tower

end Puzzle

end StackingPlanner
