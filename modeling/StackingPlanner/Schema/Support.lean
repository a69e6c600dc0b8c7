/-!
# Chains of supports

A finite list of links says of some objects what they rest on.  Following the
links from an object either ends at an object without a support or runs into a
cycle.
-/

namespace StackingPlanner

/-- What objects rest on: pairs of an object and its support. -/
abbrev Links := List (String × String)

namespace Links

def without (links : Links) (object : String) : Links := links.filter (fun l => l.1 ≠ object)

theorem length_without_lt {links : Links} {object support : String}
    (found : links.lookup object = some support) :
    (links.without object).length < links.length := by
  refine List.length_filter_lt_length_iff_exists.2 ?_
  induction links with
  | nil => simp at found
  | cons link rest ih =>
      by_cases same : object = link.1
      · exact ⟨link, List.mem_cons_self, by simp [same]⟩
      · have other : (object == link.1) = false := beq_eq_false_iff_ne.2 same
        rw [List.lookup_cons, other] at found
        obtain ⟨l, member, start⟩ := ih found
        exact ⟨l, List.mem_cons_of_mem _ member, start⟩

/--
Whether following the links from an object leads to an object met before.  The
links that were followed are dropped on the way, since from their objects the
walk could only repeat itself.
-/
def runsIntoCycle (links : Links) (met : List String) (object : String) : Bool :=
  if object ∈ met then true
  else
    match _found : links.lookup object with
    | none => false
    | some support => runsIntoCycle (links.without object) (object :: met) support
termination_by links.length
decreasing_by exact length_without_lt ‹_›

/-- The first object, in order, from which following the links leads into a cycle. -/
def cycleStart? (links : Links) (ordered : List String) : Option String :=
  ordered.find? (fun object => links.runsIntoCycle [] object)

end Links

end StackingPlanner
