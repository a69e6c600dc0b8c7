import Mathlib.Data.List.Pairwise
import StackingPlanner.Proof.Basic

/-!
# How a proof grows

Steps are added to a proof one by one or several at once.  A step with the
identifier of another is refused, and of several steps those after it are not
added either.  So the identifiers stay different, what was added stays in its
place, and each step is found by its identifier.
-/

namespace StackingPlanner

namespace ProofStep

/-- A step has the identifier of another; what is no number is not its own identifier. -/
def SameId (s t : ProofStep) : Prop := s.id.equalsItself = true ∧ s.key = t.key

theorem sameId_iff_of_texts {s t : ProofStep} {i j : String} (first : s.id = .text i)
    (second : t.id = .text j) : s.SameId t ↔ i = j := by
  rw [SameId, key, key, first, second]
  exact ⟨fun same => Key.text.inj same.2, fun same => ⟨rfl, congrArg Key.text same⟩⟩

def Distinct (steps : List ProofStep) : Prop := steps.Pairwise (fun s t => ¬ s.SameId t)

theorem distinct_iff_nodup {steps : List ProofStep}
    (texts : ∀ s ∈ steps, ∃ id, s.id = .text id) :
    Distinct steps ↔ (steps.map ProofStep.id).Nodup := by
  rw [Distinct, List.Nodup, List.pairwise_map]
  refine List.Pairwise.iff_of_mem (fun {s t} first second => not_congr ?_)
  obtain ⟨i, isText⟩ := texts s first
  obtain ⟨j, alsoText⟩ := texts t second
  rw [sameId_iff_of_texts isText alsoText, isText, alsoText, Value.text.injEq]

theorem distinct_append_singleton_iff {steps : List ProofStep} {step : ProofStep} :
    Distinct (steps ++ [step]) ↔ Distinct steps ∧ ∀ s ∈ steps, ¬ s.SameId step := by
  simp [Distinct, List.pairwise_append]

end ProofStep

open ProofStep (Distinct)

namespace Proof

variable {p q : Proof} {s step : ProofStep} {present : List ProofStep}

/-! ## One step -/

theorem get?_eq_none_iff : p.get? step.id = none ↔ ∀ s ∈ p.steps, ¬ s.SameId step := by
  rw [get?, find?, List.find?_eq_none]
  simp only [Bool.and_eq_true, decide_eq_true_eq]
  rfl

/-- Of steps with different identifiers each one is found by its own. -/
theorem get?_eq_some_iff (distinct : Distinct p.steps) {id : Value} :
    p.get? id = some s ↔ s ∈ p.steps ∧ s.id.equalsItself = true ∧ s.key = id.key := by
  rw [get?, find?, List.find?_eq_some_iff_append]
  constructor
  · rintro ⟨here, before, after, split, -⟩
    rw [Bool.and_eq_true, decide_eq_true_eq] at here
    exact ⟨by simp [split], here⟩
  · rintro ⟨member, equal, same⟩
    obtain ⟨before, after, split⟩ := List.append_of_mem member
    refine ⟨by simp [equal, same], before, after, split, fun t earlier => ?_⟩
    rw [split] at distinct
    have differs := (List.pairwise_append.mp distinct).2.2 t earlier s List.mem_cons_self
    rw [Bool.not_eq_true', Bool.eq_false_iff, ne_eq, Bool.and_eq_true, decide_eq_true_eq, ← same]
    exact differs

theorem add_of_old (old : ∃ s ∈ p.steps, s.SameId step) :
    p.add step = .error (.duplicateStep step.id) := by
  obtain ⟨s, member, same⟩ := old
  rw [add]
  cases found : p.get? step.id with
  | none => exact absurd same (get?_eq_none_iff.mp found s member)
  | some other => rfl

theorem add_of_new (new : ∀ s ∈ p.steps, ¬ s.SameId step) :
    p.add step = .ok { p with steps := p.steps ++ [step] } := by
  rw [add, get?_eq_none_iff.mpr new]

/-! ## Several steps -/

/-- Why no more steps are added to those that are present, and what is answered. -/
inductive Stops (present : List ProofStep) :
    List (Except Misuse ProofStep) → Except Misuse Unit → Prop where
  /-- There are no more steps. -/
  | done : Stops present [] (.ok ())
  /-- The next step cannot be had. -/
  | unread (misuse : Misuse) (rest : List (Except Misuse ProofStep)) :
      Stops present (.error misuse :: rest) (.error misuse)
  /-- The next step has the identifier of a step that is present. -/
  | repeated {step : ProofStep} (old : ∃ s ∈ present, s.SameId step)
      (rest : List (Except Misuse ProofStep)) :
      Stops present (.ok step :: rest) (.error (.duplicateStep step.id))

/-- Of steps that are to be added the first ones are added, each of them new, and then it stops. -/
structure Adds (present : List ProofStep) (steps : List (Except Misuse ProofStep))
    (added : List ProofStep) (answer : Except Misuse Unit) : Prop where
  ends : ∃ rest, steps = added.map .ok ++ rest ∧ Stops (present ++ added) rest answer
  distinct : Distinct (present ++ added)

theorem Stops.adds {steps : List (Except Misuse ProofStep)} {answer : Except Misuse Unit}
    (stops : Stops present steps answer) (distinct : Distinct present) :
    Adds present steps [] answer := by
  constructor
  · exact ⟨steps, rfl, by rwa [List.append_nil]⟩
  · rwa [List.append_nil]

theorem append_nil (p : Proof) : { p with steps := p.steps ++ [] } = p := by
  rw [List.append_nil]

/-- Adding steps adds the first ones of them and leaves all else as it was. -/
theorem exists_adds (distinct : Distinct p.steps) (steps : List (Except Misuse ProofStep)) :
    ∃ added answer, p.addSteps steps = ({ p with steps := p.steps ++ added }, answer) ∧
      Adds p.steps steps added answer := by
  induction steps generalizing p with
  | nil => exact ⟨[], .ok (), by rw [p.append_nil]; rfl, Stops.done.adds distinct⟩
  | cons first rest ih =>
      cases first with
      | error misuse =>
          have stops : Stops p.steps (.error misuse :: rest) (.error misuse) :=
            .unread misuse rest
          exact ⟨[], .error misuse, by rw [p.append_nil]; rfl, stops.adds distinct⟩
      | ok step =>
          rw [addSteps]
          by_cases old : ∃ s ∈ p.steps, s.SameId step
          · rw [add_of_old old]
            exact ⟨[], _, by rw [p.append_nil], (Stops.repeated old rest).adds distinct⟩
          · have new : ∀ s ∈ p.steps, ¬ s.SameId step := fun s member same => old ⟨s, member, same⟩
            rw [add_of_new new]
            obtain ⟨added, answer, grown, ⟨left, split, stops⟩, still⟩ :=
              @ih { p with steps := p.steps ++ [step] }
                (ProofStep.distinct_append_singleton_iff.mpr ⟨distinct, new⟩)
            have shape : p.steps ++ [step] ++ added = p.steps ++ step :: added := by simp
            rw [shape] at stops still
            refine ⟨step :: added, answer, ?_, ⟨left, ?_, stops⟩, still⟩
            · rw [← shape]
              exact grown
            · rw [split]
              rfl

/-- Of steps that are all there, all are added or there is a first one that repeats another. -/
theorem Adds.cases {steps added : List ProofStep} {answer : Except Misuse Unit}
    (adds : Adds [] (steps.map .ok) added answer) :
    (added = steps ∧ answer = .ok ()) ∨
      ∃ step after, steps = added ++ step :: after ∧ (∃ s ∈ added, s.SameId step) ∧
        answer = .error (.duplicateStep step.id) := by
  obtain ⟨rest, split, stops⟩ := adds.ends
  obtain ⟨first, later, rfl, same, rfl⟩ := List.map_eq_append_iff.mp split
  obtain rfl := (List.map_inj_right (fun _ _ => Except.ok.inj)).mp same
  cases later with
  | nil =>
      cases stops
      exact .inl ⟨(List.append_nil _).symm, rfl⟩
  | cons step after =>
      cases stops with
      | repeated old rest => exact .inr ⟨step, after, rfl, old, rfl⟩

/-! ## One call after another -/

inductive Call where
  | one (step : ProofStep)
  /-- Each of the steps can be had or not. -/
  | several (steps : List (Except Misuse ProofStep))

def Call.steps : Call → List (Except Misuse ProofStep)
  | one step => [.ok step]
  | several steps => steps

def make (p : Proof) : Call → Proof × Except Misuse Unit
  | .one step =>
      match p.add step with
      | .ok longer => (longer, .ok ())
      | .error misuse => (p, .error misuse)
  | .several steps => p.addSteps steps

def makeAll (p : Proof) : List Call → Proof × List (Except Misuse Unit)
  | [] => (p, [])
  | call :: calls =>
      let (next, answer) := p.make call
      let (last, answers) := next.makeAll calls
      (last, answer :: answers)

theorem make_eq (p : Proof) (call : Call) : p.make call = p.addSteps call.steps := by
  cases call with
  | one step =>
      rw [make, Call.steps, addSteps]
      cases p.add step <;> rfl
  | several steps => rfl

/-- What calls add one after another to the steps that are present, and what they answer. -/
inductive Grows : List ProofStep → List Call → List (List ProofStep) →
    List (Except Misuse Unit) → Prop where
  | nil (present : List ProofStep) : Grows present [] [] []
  | cons {present added : List ProofStep} {call : Call} {calls : List Call}
      {additions : List (List ProofStep)} {answer : Except Misuse Unit}
      {answers : List (Except Misuse Unit)} (first : Adds present call.steps added answer)
      (later : Grows (present ++ added) calls additions answers) :
      Grows present (call :: calls) (added :: additions) (answer :: answers)

/-- Calls leave all as it was but for the steps that they add in turn. -/
theorem exists_grows (distinct : Distinct p.steps) (calls : List Call) :
    ∃ additions answers,
      p.makeAll calls = ({ p with steps := p.steps ++ additions.flatten }, answers) ∧
      Grows p.steps calls additions answers ∧ Distinct (p.steps ++ additions.flatten) := by
  induction calls generalizing p with
  | nil =>
      refine ⟨[], [], ?_, .nil _, ?_⟩
      · rw [List.flatten_nil, p.append_nil]
        rfl
      · rwa [List.flatten_nil, List.append_nil]
  | cons call calls ih =>
      obtain ⟨added, answer, grown, adds⟩ := exists_adds distinct call.steps
      obtain ⟨additions, answers, later, grows, still⟩ :=
        @ih { p with steps := p.steps ++ added } adds.distinct
      refine ⟨added :: additions, answer :: answers, ?_, .cons adds grows, ?_⟩
      · rw [makeAll, make_eq, grown]
        dsimp only
        rw [later, List.flatten_cons, List.append_assoc]
      · rwa [List.flatten_cons, ← List.append_assoc]

end Proof

end StackingPlanner
