import StackingPlanner.Schema.Support
import Mathlib.Logic.Relation

/-!
# Chains of supports come to an end

If following the links from an object does not lead to an object met before,
the chain of its supports ends.  If this is so for every object that rests on
another one, resting on each other is a well-founded relation.  If it does lead
to one, either that object was met before the walk or the links have a cycle.
-/

namespace StackingPlanner

namespace Links

variable {links : Links} {met : List String} {object other : String}

/-- Following the links from an object comes to an end without an object met before. -/
inductive Ends (links : Links) (met : List String) : String → Prop where
  | rest {object : String} (new : object ∉ met) (last : links.lookup object = none) :
      Ends links met object
  | follow {object support : String} (new : object ∉ met)
      (link : links.lookup object = some support) (onward : Ends links met support) :
      Ends links met object

theorem lookup_without (differ : other ≠ object) :
    (links.without object).lookup other = links.lookup other := by
  induction links with
  | nil => rfl
  | cons link rest ih =>
      obtain ⟨start, support⟩ := link
      by_cases dropped : start = object
      · have miss : (other == start) = false := beq_eq_false_iff_ne.mpr (dropped ▸ differ)
        have tail : without ((start, support) :: rest) object = without rest object := by
          simp [without, dropped]
        rw [tail, ih, List.lookup_cons, miss]
      · have kept : without ((start, support) :: rest) object =
            (start, support) :: without rest object := by
          simp [without, dropped]
        rw [kept, List.lookup_cons, List.lookup_cons, ih]

/-- A chain that does not come to an object does not miss its link. -/
theorem Ends.of_without (ends : (links.without object).Ends (object :: met) other) :
    links.Ends met other := by
  induction ends with
  | rest new last =>
      obtain ⟨differ, new⟩ := List.ne_and_not_mem_of_not_mem_cons new
      rw [lookup_without differ] at last
      exact .rest new last
  | follow new link _ ih =>
      obtain ⟨differ, new⟩ := List.ne_and_not_mem_of_not_mem_cons new
      rw [lookup_without differ] at link
      exact .follow new link ih

/-! ## The equations of the walk along the links -/

theorem runsIntoCycle_again (again : object ∈ met) : links.runsIntoCycle met object = true := by
  rw [runsIntoCycle, if_pos again]

theorem runsIntoCycle_rest (new : object ∉ met) (last : links.lookup object = none) :
    links.runsIntoCycle met object = false := by
  rw [runsIntoCycle, if_neg new]
  split
  · rfl
  · rename_i found
    cases last.symm.trans found

theorem runsIntoCycle_follow {support : String} (new : object ∉ met)
    (link : links.lookup object = some support) :
    links.runsIntoCycle met object =
      (links.without object).runsIntoCycle (object :: met) support := by
  rw [runsIntoCycle, if_neg new]
  split
  · rename_i last
    cases link.symm.trans last
  · rename_i found
    cases link.symm.trans found
    rfl

/-- A walk along the links that does not run into a cycle ends. -/
theorem ends_of_runsIntoCycle (free : links.runsIntoCycle met object = false) :
    links.Ends met object := by
  induction links, met, object using runsIntoCycle.induct with
  | case1 links met object again =>
      rw [runsIntoCycle_again again] at free
      cases free
  | case2 links met object new last => exact .rest new last
  | case3 links met object new support link ih =>
      rw [runsIntoCycle_follow new link] at free
      exact .follow new link (ih free).of_without

theorem Ends.acc (once : ∀ x y, (x, y) ∈ links → links.lookup x = some y)
    (ends : links.Ends met object) : Acc (fun y x => (x, y) ∈ links) object := by
  induction ends with
  | rest _ last =>
      refine Acc.intro _ (fun y link => ?_)
      cases (once _ y link).symm.trans last
  | follow _ next _ ih =>
      refine Acc.intro _ (fun y link => ?_)
      cases (once _ y link).symm.trans next
      exact ih

/-- Links without a cycle are well-founded. -/
theorem wellFounded_of_cycleStart? {ordered : List String}
    (once : ∀ x y, (x, y) ∈ links → links.lookup x = some y)
    (listed : ∀ x y, (x, y) ∈ links → x ∈ ordered) (none : links.cycleStart? ordered = none) :
    WellFounded (fun y x => (x, y) ∈ links) := by
  refine ⟨fun x => ?_⟩
  by_cases placed : ∃ y, (x, y) ∈ links
  · obtain ⟨y, link⟩ := placed
    have free := List.find?_eq_none.mp none x (listed x y link)
    exact (ends_of_runsIntoCycle (Bool.eq_false_iff.mpr free)).acc once
  · exact Acc.intro x (fun y link => absurd ⟨y, link⟩ placed)

/-! ## A walk that does not end has met a cycle -/

def To (links : Links) (x y : String) : Prop := (x, y) ∈ links

/-- The link of an object, the first one if it has several, leads to another object. -/
def LeadsTo (links : Links) (x y : String) : Prop := links.lookup x = some y

theorem LeadsTo.to {x y : String} (leads : links.LeadsTo x y) : links.To x y := by
  obtain ⟨before, after, split, _⟩ := List.lookup_eq_some_iff.mp leads
  rw [To, split]
  exact List.mem_append_right before List.mem_cons_self

theorem LeadsTo.of_without {x y : String} (leads : (links.without object).LeadsTo x y) :
    links.LeadsTo x y := by
  have differ : x ≠ object := by simpa using (List.mem_filter.mp leads.to).2
  exact (lookup_without differ).symm.trans leads

/--
A walk along the links that runs into a cycle comes to an object that was met
before it began, or to one from which the links lead back to it.
-/
theorem cycle_of_runsIntoCycle (runs : links.runsIntoCycle met object = true) :
    (∃ m ∈ met, Relation.ReflTransGen links.LeadsTo object m) ∨
      ∃ x, Relation.ReflTransGen links.LeadsTo object x ∧
        Relation.TransGen links.LeadsTo x x := by
  induction links, met, object using runsIntoCycle.induct with
  | case1 links met object again => exact .inl ⟨object, again, .refl⟩
  | case2 links met object new last =>
      rw [runsIntoCycle_rest new last] at runs
      cases runs
  | case3 links met object new support link ih =>
      rw [runsIntoCycle_follow new link] at runs
      have first : links.LeadsTo object support := link
      have dropped : ∀ x y, (links.without object).LeadsTo x y → links.LeadsTo x y :=
        fun _ _ => LeadsTo.of_without
      rcases ih runs with ⟨m, known, kept⟩ | ⟨x, kept, cycle⟩
      · have chain := Relation.ReflTransGen.mono dropped _ _ kept
        rcases List.mem_cons.mp known with rfl | earlier
        · -- The walk has come back to where it started.
          exact .inr ⟨m, .refl, .head' first chain⟩
        · exact .inl ⟨m, earlier, .head first chain⟩
      · have chain := Relation.ReflTransGen.mono dropped _ _ kept
        exact .inr ⟨x, .head first chain, Relation.TransGen.mono dropped _ _ cycle⟩

/-- In links without a cycle no walk runs into one. -/
theorem cycleStart?_eq_none_of_acyclic (acyclic : ∀ x, ¬ Relation.TransGen links.To x x)
    (ordered : List String) : links.cycleStart? ordered = none := by
  apply List.find?_eq_none.mpr
  intro object _ runs
  rcases cycle_of_runsIntoCycle runs with ⟨m, met, _⟩ | ⟨x, _, cycle⟩
  · cases met
  · exact acyclic x (Relation.TransGen.mono (fun _ _ => LeadsTo.to) _ _ cycle)

end Links

end StackingPlanner
