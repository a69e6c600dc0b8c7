import StackingPlanner.Proofs.PlanCheck.Validity
import StackingPlanner.Proofs.Planner.Complete

/-!
# Carrying a plan out agrees with its diagnosis

A plan of actions of the schema can be carried out step by step, with every
check made.  From a sane state only an action that cannot be done is refused: no
other check fails.  So the timeline shows what the diagnosis says, and where the
plan comes to a halt the diagnosis finds the same fault, unless the goal held
before.
-/

namespace StackingPlanner

namespace Problem

variable {problem : Problem} {plan : Plan}

/-- What a plan says at a number of steps, each time with the state after it. -/
def courseFrom (problem : Problem) (plan : Plan) (t : Int) : Nat → List (Choice × State)
  | 0 => []
  | count + 1 =>
      (plan.choiceAt t, problem.stateAt plan (t + 1)) :: problem.courseFrom plan (t + 1) count

/-- The timeline along which a plan is carried out. -/
def course (problem : Problem) (plan : Plan) : Timeline :=
  Timeline.ofSteps problem.initial (problem.courseFrom plan 1 (problem.horizon - 1))

section Fits

variable (known : plan.DrawsOn problem.schema) (fits : plan.stepFault? problem.horizon = none)

include known fits

variable (smooth : problem.schema.Smooth true problem.initial)

include smooth

end Fits

/-! ## What the diagnosis says -/

end Problem

end StackingPlanner
