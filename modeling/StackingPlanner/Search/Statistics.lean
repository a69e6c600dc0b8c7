import StackingPlanner.Misuse

/-!
# Search statistics

A search counts the nodes that it visits, the nodes that it gives up, the
nodes that its table of dead ends spares it, the transitions that it makes and
the last step that it comes to.
-/

namespace StackingPlanner

/-- The counts of one search, and the time that it took in milliseconds. -/
structure Counts (ν τ : Type) where
  nodes : ν
  backtracks : ν
  deadEndHits : ν
  transitions : ν
  maxStep : ν
  elapsedMs : τ

abbrev Statistics := Counts Int Number

abbrev GivenStatistics := Counts Value Value

namespace Counts

def zero : Statistics := ⟨0, 0, 0, 0, 0, .real 0⟩

/-- Add the counts of another search; the last step is the later one, the time stays. -/
def merge (s t : Statistics) : Statistics where
  nodes := s.nodes + t.nodes
  backtracks := s.backtracks + t.backtracks
  deadEndHits := s.deadEndHits + t.deadEndHits
  transitions := s.transitions + t.transitions
  maxStep := max s.maxStep t.maxStep
  elapsedMs := s.elapsedMs

def visit (s : Statistics) (step : Int) : Statistics :=
  { s with nodes := s.nodes + 1, maxStep := max s.maxStep step }

def toGiven (s : Statistics) : GivenStatistics where
  nodes := .whole s.nodes
  backtracks := .whole s.backtracks
  deadEndHits := .whole s.deadEndHits
  transitions := .whole s.transitions
  maxStep := .whole s.maxStep
  elapsedMs := .number s.elapsedMs

def under (s : GivenStatistics) (elapsedMs : Value) : Entries :=
  [("nodes", s.nodes), ("backtracks", s.backtracks), ("dead_end_hits", s.deadEndHits),
    ("transitions", s.transitions), ("max_step", s.maxStep), ("elapsed_ms", elapsedMs)]

/-- Statistics from values under their names; one that is missing is zero. -/
def ofEntries (entries : Entries) : Except Misuse GivenStatistics :=
  let usual := under zero.toGiven (.number zero.elapsedMs)
  if entries.any (fun entry => (usual.get? entry.1).isNone) then .error .mismatch
  else
    let field (name : String) : Value := ((usual.setAll entries).get? name).getD .null
    .ok
      { nodes := field "nodes"
        backtracks := field "backtracks"
        deadEndHits := field "dead_end_hits"
        transitions := field "transitions"
        maxStep := field "max_step"
        elapsedMs := field "elapsed_ms" }

def mergeGiven (s t : GivenStatistics) : Except Misuse GivenStatistics := do
  return {
    nodes := ← s.nodes.plus t.nodes
    backtracks := ← s.backtracks.plus t.backtracks
    deadEndHits := ← s.deadEndHits.plus t.deadEndHits
    transitions := ← s.transitions.plus t.transitions
    maxStep := ← s.maxStep.later t.maxStep
    elapsedMs := s.elapsedMs }

/-- Given statistics under their names, the time rounded to microseconds. -/
def named (s : GivenStatistics) : Except Misuse Entries := do
  return s.under (.number ((← s.elapsedMs.takeNumber).rounded 3))

def shownTime (s : Statistics) : Value := .number (s.elapsedMs.rounded 3)

def entries (s : Statistics) : Entries := s.toGiven.under s.shownTime

def toValue (s : Statistics) : Value := .object s.entries

end Counts

end StackingPlanner
