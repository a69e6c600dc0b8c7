import StackingPlanner.Misuse
import StackingPlanner.Search.Clock

/-!
# Search budgets

A budget bounds the number of nodes that a search visits and the time that it
takes.  A meter counts the visits and refuses one that the budget does not
allow, or any visit once it was cancelled.
-/

namespace StackingPlanner

/-- Bounds on a search, neither below zero; a bound that is missing does not bind. -/
structure Budget where
  maxNodes : Option Number := none
  timeLimit : Option Number := none
  deriving Inhabited

namespace Budget

/-- The bound that a value states, which must not be below zero; null states none. -/
def readBound (negative : Value → Failure) (value : Value) : Except Fault (Option Number) :=
  match value with
  | .null => .ok none
  | value =>
      match value.number? with
      | none => .error Misuse.mismatch
      | some n => if n.isBelow (.whole 0) then .error (negative value) else .ok (some n)

def make (maxNodes timeLimit : Value) : Except Fault Budget := do
  let maxNodes ← readBound .negativeNodes maxNodes
  let timeLimit ← readBound .negativeTime timeLimit
  return ⟨maxNodes, timeLimit⟩

def unlimited (b : Budget) : Bool := b.maxNodes.isNone && b.timeLimit.isNone

end Budget

inductive Refusal where
  | cancelled
  | nodeBudget
  | timeLimit
  deriving DecidableEq, Repr

def Refusal.text : Refusal → String
  | .cancelled => "cancelled"
  | .nodeBudget => "node_budget"
  | .timeLimit => "time_limit"

structure Meter where
  budget : Budget
  clock : Clock
  startedAt : Option Float := none
  nodes : Nat := 0
  cancelled : Bool := false

namespace Meter

def fresh (budget : Budget) (clock : Clock) : Meter := { budget, clock }

/-- Take the time of the start, unless this was done before. -/
def start (m : Meter) : Meter :=
  match m.startedAt with
  | some _ => m
  | none =>
      let (now, clock) := m.clock.read
      { m with startedAt := some now, clock }

def cancel (m : Meter) : Meter := { m with cancelled := true }

/-- The seconds since the start; zero before it. -/
def elapsed (m : Meter) : Float × Meter :=
  match m.startedAt with
  | none => (0, m)
  | some began =>
      let (now, clock) := m.clock.read
      (now - began, { m with clock })

def exhausts (b : Budget) (nodes : Nat) : Bool :=
  b.maxNodes.any (fun most => most.isAtMost (.whole nodes))

/-- The number of visits that the node budget still allows; none if it allows any number. -/
def allowance? (m : Meter) : Option Nat :=
  match m.budget.maxNodes with
  | none => none
  | some most =>
      match most.exact with
      | .finite _ _ => some (most.ceiling.toNat - m.nodes)
      | _ => none

/-- Account for one visit; the first part of the answer is the refusal, if there is one. -/
def charge (m : Meter) : Option Refusal × Meter :=
  if m.cancelled then (some .cancelled, m)
  else if exhausts m.budget m.nodes then (some .nodeBudget, m)
  else
    let counted := { m with nodes := m.nodes + 1 }
    match m.budget.timeLimit with
    | none => (none, counted)
    | some limit =>
        let (seconds, timed) := counted.elapsed
        (if limit.isAtMost (.real seconds) then some .timeLimit else none, timed)

end Meter

end StackingPlanner
