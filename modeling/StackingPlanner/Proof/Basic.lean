import StackingPlanner.Misuse

/-!
# Proofs

A proof explains the outcome of a solve: a query and steps in order, each with
an identifier of its own and the identifiers of the steps that it depends on.
Apart from its kind, everything in a step is kept as it was given.
-/

namespace StackingPlanner

/-- The kinds of proof steps. -/
inductive StepKind where
  | premise
  /-- An action occurs. -/
  | inference
  /-- Nothing occurs. -/
  | inertia
  | conclusion
  /-- There is no plan, or the search was aborted. -/
  | contradiction
  deriving DecidableEq, Repr

namespace StepKind

def all : List StepKind := [premise, inference, inertia, conclusion, contradiction]

def name : StepKind → String
  | premise => "premise"
  | inference => "inference"
  | inertia => "inertia"
  | conclusion => "conclusion"
  | contradiction => "contradiction"

def label : StepKind → String
  | premise => "PREMISE"
  | inference => "ACTION"
  | inertia => "IDLE"
  | conclusion => "OK"
  | contradiction => "FAIL"

def summaryLabel : StepKind → String
  | premise => "premise"
  | inference => "action"
  | inertia => "idle"
  | conclusion => "ok"
  | contradiction => "fail"

def ofValue (value : Value) : Except Misuse StepKind :=
  match value with
  | .text s =>
      match all.find? (fun kind => kind.name = s) with
      | some kind => .ok kind
      | none => .error (.stepKind value)
  | _ => .error (.stepKind value)

end StepKind

/-- One step of a proof. -/
structure ProofStep where
  id : Value
  kind : StepKind
  /-- The time step that is described, or null. -/
  time : Value := .null
  /-- What the step relies on. -/
  inputs : Value := .list []
  /-- The name of the action that occurs, or null. -/
  rule : Value := .null
  /-- What the step establishes. -/
  output : Value := .text ""
  explanation : Value := .text ""
  /-- The identifiers of the steps that this step depends on. -/
  parents : Value := .list []
  metadata : Value := .object []

namespace ProofStep

def key (s : ProofStep) : Key := s.id.key

def same (s t : ProofStep) : Bool :=
  s.id == t.id && decide (s.kind = t.kind) && s.time == t.time && s.inputs == t.inputs &&
    s.rule == t.rule && s.output == t.output && s.explanation == t.explanation &&
    s.parents == t.parents && s.metadata == t.metadata

instance : BEq ProofStep := ⟨same⟩

end ProofStep

/-- A query and the steps that answer it. -/
structure Proof where
  query : Value
  steps : List ProofStep := []
  metadata : Entries := []

namespace Proof

def find? (p : Proof) (key : Key) : Option ProofStep :=
  p.steps.find? (fun step => step.id.equalsItself && decide (step.key = key))

def get? (p : Proof) (id : Value) : Option ProofStep := p.find? id.key

def ids (p : Proof) : List Value := p.steps.map (·.id)

/-- Add a step, whose identifier must be new. -/
def add (p : Proof) (step : ProofStep) : Except Misuse Proof :=
  match p.get? step.id with
  | some _ => .error (.duplicateStep step.id)
  | none => .ok { p with steps := p.steps ++ [step] }

/--
Add steps in turn, up to one that cannot be had or that has the identifier of
another; the steps before it stay added.
-/
def addSteps (p : Proof) : List (Except Misuse ProofStep) → Proof × Except Misuse Unit
  | [] => (p, .ok ())
  | .error misuse :: _ => (p, .error misuse)
  | .ok step :: rest =>
      match p.add step with
      | .error misuse => (p, .error misuse)
      | .ok longer => addSteps longer rest

def ofKind (p : Proof) (kind : StepKind) : List ProofStep := p.steps.filter (·.kind = kind)

end Proof

end StackingPlanner
