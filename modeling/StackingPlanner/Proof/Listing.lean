import StackingPlanner.Proof.Support
import StackingPlanner.Text.Blank

/-!
# Proofs as text

A proof is listed step by step, with a rule before the steps and after them
and a count of the steps by kind at the end.  A chain of steps is listed more
briefly, with a number for each.
-/

namespace StackingPlanner

namespace ProofStep

def trimmed (text : String) : String := String.ofList (Text.dropTrailingBlanks text.toList)

def rightAligned (width : Nat) (text : String) : String :=
  String.ofList (List.replicate (width - text.length) ' ') ++ text

/-- The time of a step; a dash if it has none. -/
def timeText (s : ProofStep) : String :=
  match s.time with
  | .null => "-"
  | time => "t=" ++ time.plain

def headline (s : ProofStep) : String :=
  trimmed (rightAligned 5 s.timeText ++ " [" ++ s.kind.label ++ "] " ++ s.explanation.plain)

/-- The first items of a list; below zero, all items but as many at the end. -/
def firstItems {α : Type} (count : Int) (items : List α) : List α :=
  items.take (if count < 0 then (items.length + count).toNat else count.toNat)

def inputItems (s : ProofStep) : Except Misuse (List Value) :=
  match s.inputs with
  | .object _ => .error .mismatch
  | inputs => inputs.takeItems

/-- The line of the first inputs of a step, with the count of those that are left out. -/
def inputsLine (s : ProofStep) (most : Value) : Except Misuse String := do
  let inputs ← s.inputItems
  match most.whole? with
  | none => throw .mismatch
  | some most =>
      let shown ← (firstItems most inputs).mapM Value.takeText
      let left := inputs.length - most
      return "        Requires: " ++ String.intercalate ", " shown ++
        (if 0 < left then " (+" ++ toString left ++ ")" else "")

def valueLine (intro : String) (value : Value) : List String :=
  if value.counts then [intro ++ value.plain] else []

def inputLines (s : ProofStep) (most : Value) : Except Misuse (List String) :=
  if s.inputs.counts then (s.inputsLine most).map (fun line => [line]) else .ok []

def lines (s : ProofStep) (details : Bool) (mostInputs : Value) : Except Misuse (List String) := do
  let inputs ← if details then s.inputLines mostInputs else .ok []
  return s.headline :: (valueLine "        => " s.output ++
    (if details then valueLine "        Action: " s.rule else []) ++ inputs)

def usualInputs : Value := .whole 4

def listing (s : ProofStep) (details : Bool) (mostInputs : Value) : Except Misuse String :=
  (s.lines details mostInputs).map (String.intercalate "\n")

end ProofStep

namespace Proof

/-- The kinds of a list of steps, each once, in the order in which they first come. -/
def kindsInOrder (steps : List ProofStep) : List StepKind := (steps.map (·.kind)).eraseDups

def tally (steps : List ProofStep) : String :=
  String.intercalate ", " ((kindsInOrder steps).map (fun kind =>
    kind.summaryLabel ++ "=" ++ toString (steps.filter (·.kind = kind)).length))

def ruler : String := String.ofList (List.replicate 60 '-')

def stepLines (p : Proof) (details : Bool) : Except Misuse (List String) :=
  if p.steps.isEmpty then .ok ["No steps recorded."]
  else do
    let listed ← p.steps.mapM (fun s => s.listing details ProofStep.usualInputs)
    return listed ++
      [ruler, "Total: " ++ toString p.steps.length ++ " steps (" ++ tally p.steps ++ ")"]

def listing (p : Proof) (details : Bool) : Except Misuse String := do
  let lines ← p.stepLines details
  return String.intercalate "\n" (["Plan explanation for: " ++ p.query.plain, ruler] ++ lines)

def stepListing? (p : Proof) (id : Value) (details : Bool) (mostInputs : Value) :
    Except Misuse (Option String) :=
  match p.get? id with
  | some s => (s.listing details mostInputs).map some
  | none => .ok none

def chainLines (s : ProofStep) (number : Nat) : List String :=
  (toString number ++ ". [" ++ s.kind.label ++ "] " ++ s.explanation.plain) ::
    ProofStep.valueLine "   => " s.output

def chain (steps : List ProofStep) : String :=
  String.intercalate "\n" ((steps.zipIdx 1).flatMap (fun entry => chainLines entry.1 entry.2))

end Proof

end StackingPlanner
