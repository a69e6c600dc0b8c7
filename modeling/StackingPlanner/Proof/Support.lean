import StackingPlanner.Proof.Basic

/-!
# The support of a proof step

The support of a step are the steps that it depends on, directly or through
others, nearest first.  Identifiers without a step are passed over.
-/

namespace StackingPlanner

namespace ProofStep

/-- The keys of a list of identifiers, which may not be lists or objects. -/
def memberKeys : List Value → Except Misuse (List Key)
  | [] => .ok []
  | id :: rest =>
      match id.memberKey? with
      | none => .error .mismatch
      | some key =>
          match memberKeys rest with
          | .ok keys => .ok (key :: keys)
          | .error misuse => .error misuse

def parentKeys (s : ProofStep) : Except Misuse (List Key) :=
  match s.parents.takeItems with
  | .ok ids => memberKeys ids
  | .error misuse => .error misuse

end ProofStep

namespace Proof

/-- The keys of a list that were not met, each once, in order. -/
def newcomers (met : List Key) : List Key → List Key
  | [] => []
  | key :: rest => if key ∈ met then newcomers met rest else key :: newcomers (key :: met) rest

theorem mem_of_mem_newcomers {met l : List Key} {key : Key} (h : key ∈ newcomers met l) :
    key ∈ l ∧ ¬ key ∈ met := by
  induction l generalizing met with
  | nil => simp [newcomers] at h
  | cons a rest ih =>
      unfold newcomers at h
      split at h
      · exact ⟨List.mem_cons_of_mem _ (ih h).1, (ih h).2⟩
      · rename_i new
        rcases List.mem_cons.1 h with rfl | h
        · exact ⟨List.mem_cons_self, new⟩
        · exact ⟨List.mem_cons_of_mem _ (ih h).1,
            fun old => (ih h).2 (List.mem_cons_of_mem _ old)⟩

def knownParents (s : ProofStep) : List Key :=
  match s.parentKeys with
  | .ok keys => keys
  | .error _ => []

def unmet (p : Proof) (met : List Key) : List Key :=
  (p.steps.flatMap knownParents).filter (fun key => !decide (key ∈ met))

/-- The keys that the step under a key depends on; none if there is no such step. -/
def parentsOf (p : Proof) (key : Key) : Except Misuse (List Key) :=
  match p.find? key with
  | some step => step.parentKeys
  | none => .ok []

theorem mem_unmet_of_mem_newcomers {p : Proof} {met parents : List Key} {current key : Key}
    (found : p.parentsOf current = .ok parents) (h : key ∈ newcomers met parents) :
    key ∈ p.unmet met := by
  obtain ⟨parent, new⟩ := mem_of_mem_newcomers h
  unfold parentsOf at found
  split at found
  · rename_i step member
    refine List.mem_filter.2
      ⟨List.mem_flatMap.2 ⟨step, List.mem_of_find?_eq_some member, ?_⟩, ?_⟩
    · simpa [knownParents, found] using parent
    · simp [new]
  · cases found
    simp at parent

theorem unmet_append (p : Proof) (met more : List Key) :
    p.unmet (met ++ more) = (p.unmet met).filter (fun key => !decide (key ∈ more)) := by
  unfold unmet
  rw [List.filter_filter]
  congr 1
  funext key
  simp [Bool.and_comm]

theorem unmet_length_lt {p : Proof} {met more : List Key} {key : Key}
    (old : key ∈ p.unmet met) (new : key ∈ more) :
    (p.unmet (met ++ more)).length < (p.unmet met).length := by
  rw [unmet_append]
  exact List.length_filter_lt_length_iff_exists.2 ⟨key, old, by simp [new]⟩

/--
Go through the keys that wait and collect the steps that they depend on.  The
keys that were met are not collected again.
-/
def collect (p : Proof) (met : List Key) : List Key → Except Misuse (List ProofStep)
  | [] => .ok []
  | current :: waiting =>
      match _found : p.parentsOf current with
      | .error misuse => .error misuse
      | .ok parents =>
          let fresh := newcomers met parents
          let steps := fresh.filterMap p.find?
          match collect p (met ++ fresh) (waiting ++ steps.map (·.key)) with
          | .ok others => .ok (steps ++ others)
          | .error misuse => .error misuse
termination_by waiting => ((p.unmet met).length, waiting.length)
decreasing_by
  cases listed : newcomers met parents with
  | nil =>
      simp only [List.append_nil, List.filterMap_nil, List.map_nil]
      exact Prod.Lex.right _ (Nat.lt_succ_self _)
  | cons key rest =>
      have member : key ∈ newcomers met parents := by simp [listed]
      exact Prod.Lex.left _ _
        (unmet_length_lt (mem_unmet_of_mem_newcomers _found member) List.mem_cons_self)

def support (p : Proof) (id : Value) : Except Misuse (List ProofStep) := p.collect [] [id.key]

end Proof

end StackingPlanner
