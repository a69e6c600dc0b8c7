import StackingPlanner.Proofs.Schema.Accepted
import StackingPlanner.Proofs.Schema.Support
import StackingPlanner.Schema.Arrangement

/-!
# Cycles of supports are found

A chain of supports that never ends runs into a cycle, which need not lead back
to the object at which the chain begins.  A walk along the links notices this
when it comes to an object for the second time, and it has to look at no more
objects than there are links.  So the check finds a cycle exactly if there is
one, and it reports the least object from which the links lead into one.
-/

namespace StackingPlanner

theorem least_of_find?_sorted {α : Type} [LT α] [DecidableLT α] [StrictOrder α] {l : List α}
    {test : α → Bool} {a : α} (found : (sorted l).find? test = some a) :
    test a = true ∧ ∀ b ∈ l, test b = true → ¬ b < a := by
  obtain ⟨passes, before, after, split, fail⟩ := List.find?_eq_some_iff_append.mp found
  refine ⟨passes, fun b member passes => ?_⟩
  have ordered := sorted_pairwise l
  have among : b ∈ sorted l := List.mem_mergeSort.mpr member
  rw [split] at ordered among
  rcases List.mem_append.mp among with earlier | later
  · have fails := fail b earlier
    rw [passes] at fails
    cases fails
  · rcases List.mem_cons.mp later with rfl | later
    · exact StrictOrder.irrefl b
    · exact List.rel_of_pairwise_cons (List.pairwise_append.mp ordered).2.1 later

namespace Links

variable {links : Links} {met : List String} {object support x y : String}

/-! ## Chains that run into a cycle -/

/-- Following the links from an object leads to one from which they lead back to it. -/
def RunsInto (links : Links) (x : String) : Prop :=
  ∃ z, Relation.ReflTransGen links.LeadsTo x z ∧ Relation.TransGen links.LeadsTo z z

theorem RunsInto.next (runs : links.RunsInto x) : ∃ y, links.LeadsTo x y ∧ links.RunsInto y := by
  obtain ⟨z, chain, cycle⟩ := runs
  rcases chain.cases_head with rfl | ⟨y, first, onward⟩
  · obtain ⟨y, first, back⟩ := Relation.TransGen.head'_iff.mp cycle
    exact ⟨y, first, x, back, cycle⟩
  · exact ⟨y, first, z, onward, cycle⟩

theorem Ends.not_runsInto (ends : links.Ends met object) : ¬ links.RunsInto object := by
  induction ends with
  | rest _ last =>
      intro runs
      obtain ⟨y, first, -⟩ := runs.next
      cases last.symm.trans first
  | follow _ link _ ih =>
      intro runs
      obtain ⟨y, first, onward⟩ := runs.next
      cases link.symm.trans first
      exact ih onward

/-- Exactly the objects that run into a cycle are noticed. -/
theorem runsIntoCycle_iff : links.runsIntoCycle [] x = true ↔ links.RunsInto x := by
  constructor
  · intro noticed
    rcases cycle_of_runsIntoCycle noticed with ⟨_, none, _⟩ | cycle
    · cases none
    · exact cycle
  · intro runs
    cases noticed : links.runsIntoCycle [] x with
    | true => rfl
    | false => exact absurd runs (ends_of_runsIntoCycle noticed).not_runsInto

theorem RunsInto.mem (runs : links.RunsInto x) : x ∈ links.map (·.1) := by
  obtain ⟨y, first, -⟩ := runs.next
  exact List.mem_map.mpr ⟨(x, y), first.to, rfl⟩

/-! ## The walk along all links -/

/--
The walk that keeps all links: after the objects that were met it looks at the
one that comes next, if there is one, some times, and at last it has come to an
object that was met before, or not.
-/
inductive Looks (links : Links) : List String → Option String → Nat → Bool → Prop where
  | rest {met : List String} : Looks links met none 0 false
  | again {met : List String} {object : String} (known : object ∈ met) :
      Looks links met (some object) 1 true
  | onward {met : List String} {object : String} {looks : Nat} {noticed : Bool}
      (new : object ∉ met)
      (later : Looks links (object :: met) (links.lookup object) looks noticed) :
      Looks links met (some object) (looks + 1) noticed

/-- The walk takes one course only. -/
theorem Looks.unique {next : Option String} {looks more : Nat} {noticed other : Bool}
    (first : links.Looks met next looks noticed) (second : links.Looks met next more other) :
    looks = more ∧ noticed = other := by
  induction first generalizing more other with
  | rest =>
      cases second
      exact ⟨rfl, rfl⟩
  | again known =>
      cases second with
      | again _ => exact ⟨rfl, rfl⟩
      | onward new _ => exact absurd known new
  | onward new _ ih =>
      cases second with
      | again known => exact absurd known new
      | onward _ later =>
          obtain ⟨rfl, same⟩ := ih later
          exact ⟨rfl, same⟩

/-- Dropping the links of the objects that were met does not change the walk. -/
theorem exists_looks_of_agree {kept : Links}
    (agree : ∀ x, x ∉ met → kept.lookup x = links.lookup x) :
    ∃ looks ≤ kept.length + 1,
      links.Looks met (some object) looks (kept.runsIntoCycle met object) := by
  induction kept, met, object using runsIntoCycle.induct with
  | case1 kept met object again =>
      rw [runsIntoCycle_again again]
      exact ⟨1, Nat.le_add_left 1 _, .again again⟩
  | case2 kept met object new last =>
      rw [runsIntoCycle_rest new last]
      refine ⟨1, Nat.le_add_left 1 _, .onward new ?_⟩
      rw [← agree object new, last]
      exact .rest
  | case3 kept met object new support link ih =>
      have fewer := length_without_lt link
      have still : ∀ x, x ∉ object :: met →
          (kept.without object).lookup x = links.lookup x := by
        intro x unmet
        obtain ⟨differ, unmet⟩ := List.ne_and_not_mem_of_not_mem_cons unmet
        exact (lookup_without differ).trans (agree x unmet)
      obtain ⟨looks, most, later⟩ := ih still
      rw [runsIntoCycle_follow new link]
      refine ⟨looks + 1, by omega, .onward new ?_⟩
      rwa [← agree object new, link]

/-- From an object the walk looks no more often than there are links, and notices what it should. -/
theorem exists_looks (links : Links) (start : String) :
    ∃ looks ≤ links.length,
      links.Looks [start] (links.lookup start) looks (links.runsIntoCycle [] start) := by
  obtain ⟨looks, most, walk⟩ := @exists_looks_of_agree links [] start links (fun _ _ => rfl)
  generalize links.runsIntoCycle [] start = noticed at walk ⊢
  cases walk with
  | again known => cases known
  | onward _ later => exact ⟨_, Nat.le_of_succ_le_succ most, later⟩

/-! ## The check -/

theorem checkAcyclic_eq_ok_iff :
    links.checkAcyclic = .ok () ↔ links.cycleStart? (sorted (links.map (·.1))) = none := by
  unfold checkAcyclic
  cases links.cycleStart? (sorted (links.map (·.1))) <;> simp

theorem checkAcyclic_eq_error_iff {failure : Failure} :
    links.checkAcyclic = .error failure ↔
      ∃ x, links.cycleStart? (sorted (links.map (·.1))) = some x ∧ failure = .supportCycle x := by
  unfold checkAcyclic
  cases links.cycleStart? (sorted (links.map (·.1))) <;> simp [eq_comm]

/-- The check starts its report at the least object that runs into a cycle. -/
theorem least_of_cycleStart? (found : links.cycleStart? (sorted (links.map (·.1))) = some x) :
    links.RunsInto x ∧ ∀ y, links.RunsInto y → ¬ y < x := by
  obtain ⟨noticed, least⟩ := least_of_find?_sorted found
  exact ⟨runsIntoCycle_iff.mp noticed,
    fun y runs => least y runs.mem (runsIntoCycle_iff.mpr runs)⟩

theorem exists_cycleStart? (runs : links.RunsInto x) :
    ∃ y, links.cycleStart? (sorted (links.map (·.1))) = some y := by
  rw [cycleStart?, ← Option.isSome_iff_exists, List.find?_isSome]
  exact ⟨x, List.mem_mergeSort.mpr runs.mem, runsIntoCycle_iff.mpr runs⟩

/--
Whatever objects the links are about, each walk of the check comes to its one
end after at most as many looks as there are links.  The check fails exactly if
following the links leads from some object back to it, and then it reports the
least object whose chain of supports runs into a cycle.
-/
theorem checkAcyclic_exact (links : Links) :
    (∀ start, ∃ looks ≤ links.length, ∀ more noticed,
        links.Looks [start] (links.lookup start) more noticed ↔
          more = looks ∧ noticed = links.runsIntoCycle [] start) ∧
      ((∃ failure, links.checkAcyclic = .error failure) ↔
        ∃ x, Relation.TransGen links.LeadsTo x x) ∧
      ∀ failure, links.checkAcyclic = .error failure →
        ∃ x, links.RunsInto x ∧ (∀ y, links.RunsInto y → ¬ y < x) ∧
          failure.report = .planner .configuration
            ("Initial arrangement contains a support cycle through '" ++ x ++ "'")
            [("object_name", .text x)] none := by
  refine ⟨fun start => ?_, ⟨?_, ?_⟩, ?_⟩
  · obtain ⟨looks, most, walk⟩ := links.exists_looks start
    refine ⟨looks, most, fun more noticed => ⟨fun other => other.unique walk, ?_⟩⟩
    rintro ⟨rfl, rfl⟩
    exact walk
  · rintro ⟨failure, refused⟩
    obtain ⟨x, found, -⟩ := checkAcyclic_eq_error_iff.mp refused
    obtain ⟨⟨z, -, cycle⟩, -⟩ := least_of_cycleStart? found
    exact ⟨z, cycle⟩
  · rintro ⟨x, cycle⟩
    obtain ⟨start, found⟩ := exists_cycleStart? ⟨x, .refl, cycle⟩
    exact ⟨_, checkAcyclic_eq_error_iff.mpr ⟨start, found, rfl⟩⟩
  · intro failure refused
    obtain ⟨x, found, rfl⟩ := checkAcyclic_eq_error_iff.mp refused
    obtain ⟨runs, least⟩ := least_of_cycleStart? found
    exact ⟨x, runs, least, rfl⟩

/-- A chain that only enters a cycle is reported too, here the one of `a`, which rests on `b`. -/
theorem checkAcyclic_exact_entering :
    ∃ failure, checkAcyclic [("b", "c"), ("a", "b"), ("c", "c")] = .error failure ∧
      failure.report = .planner .configuration
        "Initial arrangement contains a support cycle through 'a'"
        [("object_name", .text "a")] none := by
  obtain ⟨-, fails, reports⟩ := checkAcyclic_exact [("b", "c"), ("a", "b"), ("c", "c")]
  have loop : LeadsTo [("b", "c"), ("a", "b"), ("c", "c")] "c" "c" := rfl
  have entering : RunsInto [("b", "c"), ("a", "b"), ("c", "c")] "a" :=
    ⟨"c", .head (b := "b") rfl (.single rfl), .single loop⟩
  obtain ⟨failure, refused⟩ := fails.mpr ⟨"c", .single loop⟩
  obtain ⟨x, runs, least, report⟩ := reports failure refused
  obtain rfl : x = "a" := by
    have linked : x ∈ ["b", "a", "c"] := runs.mem
    have above := least "a" entering
    revert above
    simp only [List.mem_cons, List.not_mem_nil, or_false] at linked
    rcases linked with rfl | rfl | rfl <;> decide
  exact ⟨failure, refused, report⟩

end Links

end StackingPlanner
