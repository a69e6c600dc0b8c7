import StackingPlanner.Document.Reader
import StackingPlanner.Document.Writer
import StackingPlanner.Proof.Basic
import StackingPlanner.Text.Lines

/-!
# Proofs as documents

A proof is written as an object with all fields of all steps.  When a proof is
read, a step needs an identifier and a kind; its other fields may be missing,
but no field may be added.
-/

namespace StackingPlanner

namespace ProofStep

def toValue (s : ProofStep) : Except Misuse Value := do
  let inputs ← s.inputs.takeItems
  let parents ← s.parents.takeItems
  let metadata ← s.metadata.takeEntries
  return .object
    [("step_id", s.id), ("step_type", .text s.kind.name), ("time_step", s.time),
      ("inputs", .list inputs), ("rule_name", s.rule), ("output", s.output),
      ("explanation_text", s.explanation), ("parent_steps", .list parents),
      ("metadata", .object metadata)]

def fieldNames : List String :=
  ["step_id", "step_type", "time_step", "inputs", "rule_name", "output", "explanation_text",
    "parent_steps", "metadata"]

/-- The proof step of a kind with named fields, one of which is the identifier. -/
def ofFields (kind : StepKind) (fields : Entries) : Except Misuse ProofStep :=
  match fields.get? "step_id" with
  | none => .error .mismatch
  | some id =>
      if fields.any (fun field => !fieldNames.contains field.1) then .error .mismatch
      else
        let field (name : String) (absent : Value) : Value := (fields.get? name).getD absent
        .ok
          { id
            kind
            time := field "time_step" .null
            inputs := field "inputs" (.list [])
            rule := field "rule_name" .null
            output := field "output" (.text "")
            explanation := field "explanation_text" (.text "")
            parents := field "parent_steps" (.list [])
            metadata := field "metadata" (.object []) }

def ofValue (value : Value) : Except Misuse ProofStep := do
  let pairs ← value.takePairs
  match pairs.find? (fun pair => pair.1.key = .text "step_type") with
  | none => throw (.missingKey (.text "step_type"))
  | some (_, kindName) =>
      let kind ← StepKind.ofValue kindName
      match pairs.named? with
      | some fields => ofFields kind fields
      | none => throw .mismatch

end ProofStep

namespace Proof

def toValue (p : Proof) : Except Misuse Value := do
  let steps ← p.steps.mapM ProofStep.toValue
  return .object
    [("query", p.query), ("root_steps", .list steps), ("metadata", .object p.metadata)]

/-- Check that a text can be encoded: lone surrogates cannot. -/
def checkEncodable (text : String) : Except Misuse String :=
  match Text.firstSurrogates? (fun _ => false) text.toList with
  | some (position, count, code) => .error (.unencodable position count code)
  | none => .ok text

def fileText (p : Proof) : Except Misuse String := do
  let value ← p.toValue
  checkEncodable value.writeUnicode

/-- Read steps and add them in turn; the steps before one that fails stay added. -/
def addValues (p : Proof) (values : List Value) : Proof × Except Misuse Unit :=
  p.addSteps (values.map ProofStep.ofValue)

def addAll (p : Proof) (value : Value) : Proof × Except Misuse Unit :=
  match value.takeItems with
  | .ok items => p.addValues items
  | .error misuse => (p, .error misuse)

def ofValue : Value → Except Misuse Proof
  | .object entries =>
      let field? (name : String) : Option Value := Entries.get? entries name
      match field? "query" with
      | none => .error (.missingKey (.text "query"))
      | some query => do
          let metadata ← ((field? "metadata").getD (.object [])).takeEntries
          let (proof, added) :=
            addAll { query, metadata } ((field? "root_steps").getD (.list []))
          added
          return proof
  | _ => .error .mismatch

def same (p q : Proof) : Bool :=
  p.query == q.query && p.steps == q.steps && Value.object p.metadata == .object q.metadata

/-- Whether reading what was written of a proof gives the proof again. -/
def survivesWriting (p : Proof) : Except Misuse Bool := do
  let again ← ofValue (← p.toValue)
  return p.same again

inductive FileFault where
  | notDocument (message : String)
  | misuse (m : Misuse)

def ofFileText (content : String) : Except FileFault Proof :=
  let text := Text.normalLines content.toList
  match Value.read text with
  | .error (.malformed e) => .error (.notDocument (ReadError.message text e))
  | .error (.longNumber digits) => .error (.misuse (.longNumber digits))
  | .error .tooDeep => .error (.misuse .tooDeep)
  | .ok value =>
      match ofValue value with
      | .ok proof => .ok proof
      | .error misuse => .error (.misuse misuse)

end Proof

end StackingPlanner
