import StackingPlanner.Proof.Document
import StackingPlanner.Proofs.Proof.Growth

/-!
# Proofs are read again as they were written

A proof that grew from nothing has different identifiers.  What is written of a
proof has all fields of all its steps, and reading it adds these steps again, so
a proof is read as it was if its identifiers differ; otherwise the first one that
repeats another is blamed.
-/

namespace StackingPlanner

theorem Value.takeEntries_object (entries : Entries) :
    (Value.object entries).takeEntries = .ok entries := by
  have same : (fun pair : Value × Value => (Pairs.keyText pair.1, pair.2)) ∘
      (fun entry : String × Value => (Value.text entry.1, entry.2)) = id := rfl
  rw [takeEntries, takePairs, Pairs.ofValue]
  simp only [Except.map, Pairs.toEntries, List.map_map, same, List.map_id]

namespace ProofStep

/-- A step whose inputs and parents are lists and whose metadata is an object. -/
structure Typed (s : ProofStep) : Prop where
  inputs : ∃ items, s.inputs = .list items
  parents : ∃ items, s.parents = .list items
  metadata : ∃ entries, s.metadata = .object entries

variable {s : ProofStep}

theorem Typed.exists_toValue (typed : s.Typed) :
    ∃ value, s.toValue = .ok value ∧ ofValue value = .ok s := by
  obtain ⟨id, kind, time, inputs, rule, output, explanation, parents, metadata⟩ := s
  obtain ⟨⟨inputs, rfl⟩, ⟨parents, rfl⟩, ⟨metadata, rfl⟩⟩ := typed
  have written := Value.takeEntries_object metadata
  refine ⟨.object
    [("step_id", id), ("step_type", .text kind.name), ("time_step", time),
      ("inputs", .list inputs), ("rule_name", rule), ("output", output),
      ("explanation_text", explanation), ("parent_steps", .list parents),
      ("metadata", .object metadata)], ?_, ?_⟩
  · simp only [toValue, written]
    rfl
  · cases kind <;> rfl

theorem exists_mapM_toValue {steps : List ProofStep} (typed : ∀ s ∈ steps, s.Typed) :
    ∃ values, steps.mapM toValue = .ok values ∧ values.map ofValue = steps.map .ok := by
  induction steps with
  | nil => exact ⟨[], rfl, rfl⟩
  | cons step rest ih =>
      obtain ⟨value, written, read⟩ := (typed step List.mem_cons_self).exists_toValue
      obtain ⟨values, others, reread⟩ :=
        ih (fun s member => typed s (List.mem_cons_of_mem _ member))
      refine ⟨value :: values, ?_, ?_⟩
      · rw [List.mapM_cons, written, others]
        rfl
      · rw [List.map_cons, List.map_cons, read, reread]

end ProofStep

open ProofStep (Distinct)

namespace Proof

variable {p : Proof}

def entriesOf (query : Value) (metadata : Entries) (values : List Value) : Entries :=
  [("query", query), ("root_steps", .list values), ("metadata", .object metadata)]

theorem toValue_eq {values : List Value} (written : p.steps.mapM ProofStep.toValue = .ok values) :
    p.toValue = .ok (.object (entriesOf p.query p.metadata values)) := by
  rw [toValue, written]
  rfl

/-- Reading a proof adds its steps to one that has none. -/
theorem ofValue_eq {query : Value} {metadata : Entries} {values : List Value} {q : Proof}
    {answer : Except Misuse Unit}
    (added : addSteps { query, metadata } (values.map ProofStep.ofValue) = (q, answer)) :
    Proof.ofValue (.object (entriesOf query metadata values)) = answer.map (fun _ => q) := by
  have asked : (entriesOf query metadata values).get? "query" = some query := rfl
  have listed : (entriesOf query metadata values).get? "root_steps" = some (.list values) := rfl
  have told : (entriesOf query metadata values).get? "metadata" = some (.object metadata) := rfl
  have taken : addAll { query, metadata } (.list values) = (q, answer) := added
  simp only [Proof.ofValue, asked, listed, told, Option.getD_some, Value.takeEntries_object, bind,
    Except.bind, taken]
  cases answer <;> rfl

/--
A proof is written, and what was written is read as this proof if its steps have
different identifiers; otherwise the first identifier that repeats another is
blamed.
-/
structure Rereads (p : Proof) (document : Value) : Prop where
  written : p.toValue = .ok document
  same : Distinct p.steps → Proof.ofValue document = .ok p
  blames : ¬ Distinct p.steps → ∃ before step after, p.steps = before ++ step :: after ∧
    Distinct before ∧ (∃ s ∈ before, s.SameId step) ∧
    Proof.ofValue document = .error (.duplicateStep step.id) ∧
    (Misuse.duplicateStep step.id).described =
      ("ValueError", "Duplicate proof step id: " ++ step.id.plain)

theorem exists_rereads (typed : ∀ s ∈ p.steps, s.Typed) : ∃ document, p.Rereads document := by
  obtain ⟨values, written, read⟩ := ProofStep.exists_mapM_toValue typed
  obtain ⟨added, answer, grown, adds⟩ :=
    @exists_adds { query := p.query, metadata := p.metadata } List.Pairwise.nil
      (p.steps.map .ok)
  rw [← read] at grown
  have reread := ofValue_eq grown
  have distinct := adds.distinct
  refine ⟨_, toValue_eq written, ?_, ?_⟩
  · intro every
    rcases adds.cases with ⟨rfl, rfl⟩ | ⟨step, after, split, ⟨s, earlier, same⟩, -⟩
    · exact reread
    · rw [split] at every
      exact absurd same ((List.pairwise_append.mp every).2.2 s earlier step List.mem_cons_self)
  · intro repeats
    rcases adds.cases with ⟨rfl, -⟩ | ⟨step, after, split, old, rfl⟩
    · exact absurd distinct repeats
    · exact ⟨added, step, after, split, distinct, old, reread, rfl⟩

/--
What calls made of a proof that had no steps.  Each call adds the first of its
steps, up to one that it cannot add.  Under an identifier the step is found that
was added with it.
-/
structure Grown (query : Value) (metadata : Entries) (calls : List Call) (p : Proof)
    (answers : List (Except Misuse Unit)) : Prop where
  query : p.query = query
  metadata : p.metadata = metadata
  grows : ∃ additions, Grows [] calls additions answers ∧ p.steps = additions.flatten
  distinct : Distinct p.steps
  /-- Identifiers that are texts are different texts. -/
  nodup : (∀ s ∈ p.steps, ∃ id, s.id = .text id) → p.ids.Nodup
  found : ∀ (id : Value) (s : ProofStep),
    p.get? id = some s ↔ s ∈ p.steps ∧ s.id.equalsItself = true ∧ s.key = id.key

theorem grown_makeAll (query : Value) (metadata : Entries) (calls : List Call) :
    Grown query metadata calls (makeAll { query, metadata } calls).1
      (makeAll { query, metadata } calls).2 := by
  obtain ⟨additions, answers, made, grows, distinct⟩ :=
    @exists_grows { query, metadata } List.Pairwise.nil calls
  rw [made]
  exact ⟨rfl, rfl, ⟨additions, grows, rfl⟩, distinct,
    fun texts => (ProofStep.distinct_iff_nodup texts).mp distinct,
    fun _ _ => get?_eq_some_iff distinct⟩

/--
Calls that add steps keep identifiers apart and the order of what they add, and
every proof is written and read again, whether it grew so or not.
-/
theorem grown_and_rereads (query : Value) (metadata : Entries) (calls : List Call) {p : Proof}
    (typed : ∀ s ∈ p.steps, s.Typed) :
    Grown query metadata calls (makeAll { query, metadata } calls).1
        (makeAll { query, metadata } calls).2 ∧
      ∃ document, p.Rereads document :=
  ⟨grown_makeAll query metadata calls, exists_rereads typed⟩

def premise (id : String) : ProofStep where
  id := .text id
  kind := .premise

/-- A proof whose third step has the identifier of the first one. -/
def echo : Proof where
  query := .text "echo"
  steps := [premise "a", premise "b", premise "a"]

def echoCalls : List Call :=
  [.one (premise "a"), .several [.ok (premise "b"), .ok (premise "a"), .ok (premise "c")],
    .one (premise "b")]

/--
Calls that meet an identifier again leave two steps, and the proof that has one
twice is written but cannot be read.
-/
theorem grown_and_rereads_echo :
    (∀ s ∈ echo.steps, s.Typed) ∧
      (∃ p, p.steps = [premise "a", premise "b"] ∧
        Grown .null [] echoCalls p
          [.ok (), .error (.duplicateStep (.text "a")), .error (.duplicateStep (.text "b"))]) ∧
      ∃ document, echo.Rereads document ∧
        Proof.ofValue document = .error (.duplicateStep (.text "a")) := by
  have typed : ∀ s ∈ echo.steps, s.Typed := by
    simp only [echo, List.mem_cons, List.not_mem_nil, or_false]
    rintro s (rfl | rfl | rfl) <;> exact ⟨⟨[], rfl⟩, ⟨[], rfl⟩, ⟨[], rfl⟩⟩
  obtain ⟨grown, document, rereads⟩ := grown_and_rereads .null [] echoCalls typed
  have made : makeAll { query := .null } echoCalls =
      ({ query := .null, steps := [premise "a", premise "b"] },
        [.ok (), .error (.duplicateStep (.text "a")), .error (.duplicateStep (.text "b"))]) := rfl
  rw [made] at grown
  refine ⟨typed, ⟨_, rfl, grown⟩, document, rereads, ?_⟩
  have written := rereads.written
  obtain rfl := Except.ok.inj written
  rfl

end Proof

end StackingPlanner
