import StackingPlanner.Search.Outcome

/-!
# Searching between given steps

The first and the last step of a search may be given as numbers of any kind.
The search counts on from the first one, and it is at its end when no step
remains.  If it passes its last step by, it only ends with its budget.
-/

namespace StackingPlanner

namespace Search

def isLast (last step : Number) : Bool := (last.subtract step).equals (.whole 0)

/-- The number of steps until the last one, if it is met within a bound. -/
def stepsUntil? (last step : Number) (count : Nat) : Nat → Option Nat
  | 0 => if isLast last step then some count else none
  | bound + 1 =>
      if isLast last step then some count
      else if last.isBelow step then none
      else stepsUntil? last (step.countOn 1) (count + 1) bound

/-- The number of steps, within a bound, until one is not below the last one. -/
def stepsBelow (last step : Number) (count : Nat) : Nat → Nat
  | 0 => count
  | bound + 1 =>
      if step.isBelow last then stepsBelow last (step.countOn 1) (count + 1) bound else count

/-- A number of steps that is not below the number of steps from one step to a later one. -/
def span (first last : Number) : Nat := ((last.subtract first).floor + 1).toNat

/--
The number of steps that a search can go deep.  A search that starts at the
goal stays there until its steps are no longer below the last one.  A search
that never meets its last step goes on for as long as visits are granted.
-/
def depth (first last : Number) (isGoal : Bool) (meter : Meter) : Nat :=
  match first, last with
  | .whole n, .whole m => (m - n).toNat
  | _, _ =>
      if meter.start.charge.1.isSome then 0
      else if isGoal then stepsBelow last first 0 (span first last)
      else
        let bound := meter.allowance?.getD (span first last)
        (stepsUntil? last first 0 bound).getD bound

/-- The outcome of a search whose steps cannot be subtracted: only a refusal comes before that. -/
def overflowed (outcome : Except Fault Outcome) : Except Fault Outcome :=
  match outcome with
  | .error fault => .error fault
  | .ok o => if o.verdict.reason?.isSome then .ok o else .error Misuse.sumOverflow

/-- Search between two steps that are given as values, which must follow each other. -/
def between (schema : Schema) (settings : SearchSettings) (initial : State)
    (goal : OrderedSet Literal) (horizon startStep : Value) (meter : Meter) :
    Except Fault Outcome × Meter :=
  let outside : Except Fault Outcome × Meter :=
    (.error (Misuse.startStep startStep horizon), meter)
  match startStep.number? with
  | none => (.error Misuse.mismatch, meter)
  | some first =>
      if !Number.isAtMost (.whole 1) first then outside
      else
        match horizon.number? with
        | none => (.error Misuse.mismatch, meter)
        | some last =>
            if !first.isAtMost last then outside
            else if first.isSummable last then
              let steps := depth first last (initial.satisfies goal.toList) meter
              runFrom schema settings initial goal (1 + steps) 1 startStep meter
            else
              let (outcome, meter) := runFrom schema settings initial goal 1 1 startStep meter
              (overflowed outcome, meter)

end Search

end StackingPlanner
