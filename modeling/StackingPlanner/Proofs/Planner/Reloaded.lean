import StackingPlanner.Proofs.Description.Restored
import StackingPlanner.Proofs.Planner.Discipline
import StackingPlanner.Proofs.Schema.Reordered

/-!
# Problems of descriptions that are read again

A description that states a problem declares nothing twice, has a horizon and
speaks only of fluents that the schema knows.  So little is left that may keep it
from being restored from its document: a part of another kind, or an object in
one of its literals whose name is none that literals are spelled with.
-/

namespace StackingPlanner

theorem Schema.isName_of_arity? {name : String} {count : Nat} (known : arity? name = some count) :
    Literal.isName name.toList = true := by
  obtain ⟨before, after, shape, -⟩ := List.lookup_eq_some_iff.mp known
  have each : ∀ entry ∈ [("on", 2), ("clear", 1), ("holding", 1), ("handempty", 0)],
      Literal.isName entry.1.toList = true := by decide
  exact each (name, count) (shape ▸ by simp)

namespace Description

variable {d : Description} {problem : Problem}

/--
A description with a name, capacities and mobilities of the kinds that they
should have, whose literals speak of objects with names that can be spelled.
-/
structure Expressible (d : Description) : Prop where
  name : ∃ s, d.name = .text s
  categories : ∀ c ∈ d.categories, c.WellFormed
  arguments : ∀ l ∈ d.initial ++ d.goal, ∀ arg ∈ l.fluent.args, Literal.isName arg.toList = true

/-! ## What is known of a description that states a problem -/

theorem States.namesOnce (states : d.States problem) : d.NamesOnce := by
  obtain ⟨categories, members, accepted, -, resolved, -⟩ := Schema.build_eq_ok_iff.mp states.built
  constructor
  · obtain ⟨later, -, each, distinct, -⟩ := Schema.acceptCategories_eq_ok_iff.mp accepted
    have names : d.categories.map (·.name) = later.map (·.name) := by
      rw [← List.forall₂_eq_eq_eq, List.forall₂_map_left_iff, List.forall₂_map_right_iff]
      exact each.imp fun _ _ accepts => (CategoryDeclaration.name_of_category? accepts).symm
    rw [names, List.Nodup, List.pairwise_map]
    exact distinct
  · obtain ⟨names, -, distinct⟩ := Schema.resolve_names resolved
    have once : ((sorted d.objects).map (·.name)).Nodup := by
      rw [← names, List.Nodup, List.pairwise_map]
      exact distinct
    exact ((List.mergeSort_perm d.objects _).map _).nodup_iff.mp once

theorem States.whole_horizon (states : d.States problem) :
    ∃ n : Int, 1 ≤ n ∧ d.horizon = .whole n := by
  have read := states.horizon
  unfold Problem.readHorizon at read
  split at read
  · rename_i n same
    split at read
    · rename_i positive
      exact ⟨n, positive, same⟩
    · cases read
  · cases read

/-- The literals of a description that states a problem are about fluents of its schema. -/
theorem States.mem_scope (states : d.States problem) :
    ∀ l ∈ d.initial ++ d.goal, l.fluent ∈ problem.schema.scope := by
  have accepted := Schema.accepted_of_build states.built
  obtain ⟨initial, -⟩ := Schema.initialState_eq_ok_iff.mp states.initial
  obtain ⟨_, goal, -⟩ := Except.exists_of_bind_eq_ok states.goal
  exact List.forall_mem_append.mpr
    ⟨((Schema.checkLiterals_eq_ok_iff accepted).mp initial).1,
      ((Schema.checkLiterals_eq_ok_iff accepted).mp goal).1⟩

theorem States.readable_iff (states : d.States problem) : d.Readable ↔ d.Expressible := by
  constructor
  · rintro ⟨name, -, categories, literals⟩
    exact ⟨name, categories, fun l member => (literals l member).args⟩
  · rintro ⟨name, categories, arguments⟩
    refine ⟨name, states.whole_horizon, categories, fun l member => ⟨?_, arguments l member⟩⟩
    have accepted := Schema.accepted_of_build states.built
    exact Schema.isName_of_arity? (accepted.known_of_mem_scope (states.mem_scope l member)).2

/-! ## Reading a description again -/

/--
A description that states a problem is restored from its document exactly if it
is expressible, and then the same problem is stated again.
-/
theorem restored_iff_expressible (states : d.problem = .ok problem) (defaultName : Value) :
    (ofValue d.toValue defaultName = .ok { d with metadata := [] } ↔ d.Expressible) ∧
      (d.Expressible →
        ∃ e, ofValue d.toValue defaultName = .ok e ∧ e.problem = .ok problem) := by
  have parts := problem_eq_ok_iff.mp states
  have restored := restored_iff_readable parts.namesOnce defaultName
  rw [parts.readable_iff] at restored
  exact ⟨restored, fun expressible => ⟨_, restored.mpr expressible, states⟩⟩

/-- A lone peg with a name of two words, which is to stay clear. -/
def lonePeg : Description where
  categories := [⟨"peg", .whole 1, .empty, .bool false⟩]
  objects := [⟨"peg 1", "peg"⟩]
  goal := [.holds (.clear "peg 1")]
  horizon := .whole 1

def lonePegSchema : Schema :=
  let peg : Category := ⟨"peg", .one, .empty, false, true⟩
  Schema.ofMembers [peg] [⟨"peg 1", peg⟩]

theorem exists_problem_lonePeg : ∃ problem, lonePeg.problem = .ok problem := by
  have built : lonePeg.schema = .ok lonePegSchema := by
    have order : sorted lonePeg.objects = lonePeg.objects :=
      List.mergeSort_of_pairwise (by decide)
    rw [schema, Schema.build, order]
    rfl
  have passes : (Arrangement.mk [] []).check lonePegSchema = .ok () :=
    Arrangement.check_eq_ok_iff.mpr ⟨rfl, rfl, rfl, by simp [Links.cycleStart?, sorted]⟩
  have described : lonePegSchema.initialState [] = .ok _ :=
    Schema.initialState_eq_ok_iff.mpr ⟨rfl, passes, rfl, rfl⟩
  have demanded : lonePegSchema.goal lonePeg.goal = .ok (OrderedSet.ofList lonePeg.goal) := rfl
  exact ⟨⟨lonePegSchema, _, _, 1, Nat.le_refl 1⟩,
    problem_eq_ok_iff.mpr ⟨built, described, demanded, rfl⟩⟩

/-- The smallest tower puzzle is restored, and the peg whose name has a blank is not. -/
theorem restored_iff_expressible_loneDisc :
    (∃ e, ofValue Planner.loneDiscDescription.toValue (.text "domain") = .ok e ∧
        e.problem = .ok Branching.loneDiscProblem) ∧
      (∃ problem, lonePeg.problem = .ok problem) ∧
      ofValue lonePeg.toValue (.text "domain") ≠
        .ok { lonePeg with metadata := [] } := by
  obtain ⟨problem, states⟩ := exists_problem_lonePeg
  obtain ⟨restored, -⟩ := restored_iff_expressible states (.text "domain")
  obtain ⟨-, again⟩ :=
    restored_iff_expressible Planner.problem_loneDiscDescription (.text "domain")
  have wellFormed : ∀ c ∈ Planner.loneDiscDescription.categories, c.WellFormed := by
    simp only [Planner.loneDiscDescription, Puzzle.Tower.categories, List.forall_mem_cons]
    exact ⟨⟨.inr ⟨1, rfl⟩, true, rfl⟩, ⟨.inr ⟨1, rfl⟩, false, rfl⟩, by simp⟩
  refine ⟨again ⟨⟨"domain", rfl⟩, wellFormed, by decide⟩, ⟨problem, states⟩, fun same => ?_⟩
  have named := (restored.mp same).arguments _ List.mem_cons_self "peg 1" List.mem_cons_self
  cases named

end Description

end StackingPlanner
