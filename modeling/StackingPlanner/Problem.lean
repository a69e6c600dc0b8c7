import StackingPlanner.Transition

/-!
# Planning problems

A problem asks for choices that lead from an initial state to a state in which
the goal holds, the latter at a fixed last step, the horizon.
-/

namespace StackingPlanner

structure Problem where
  schema : Schema
  initial : State
  goal : OrderedSet Literal
  horizon : Nat
  horizon_pos : 1 ≤ horizon

namespace Problem

/-- The horizon that a value declares: a whole number from one on. -/
def readHorizon (value : Value) : Except Failure { n : Nat // 1 ≤ n } :=
  match value with
  | .number (.whole n) =>
      if h : leastHorizon ≤ n then .ok ⟨n.toNat, by simp only [leastHorizon] at h; omega⟩
      else .error (.horizonBelowOne n)
  | other => .error (.horizonKind other)

def make (schema : Schema) (initial : State) (goal : OrderedSet Literal) (horizon : Value) :
    Except Failure Problem :=
  match readHorizon horizon with
  | .ok ⟨n, h⟩ => .ok ⟨schema, initial, goal, n, h⟩
  | .error f => .error f

def isGoal (p : Problem) (s : State) : Bool := s.satisfies p.goal.toList

end Problem

end StackingPlanner
