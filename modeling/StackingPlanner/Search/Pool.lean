import Mathlib.Logic.Relation
import StackingPlanner.Search.Branching

/-!
# Branches that are searched at the same time

The branches of a search may be searched by several workers at once.  One
thread submits the branches and then takes their results in order, while the
workers search the branches that were submitted.  The threads share the meter
and nothing else, and they may take turns in any order.
-/

namespace StackingPlanner

namespace Branching

/-- How far the search of a branch has come; a running machine uses the shared meter. -/
inductive Stage where
  | waiting
  | running (m : Machine)
  | done (result : Except Fault Outcome)

/-- A choice at the first step, the state after it, and how far the search from it has come. -/
structure Branch where
  choice : Choice
  start : State
  stage : Stage := .waiting

/-- The branches that are left, and what was found before them. -/
structure Pool where
  /-- The choices whose branches were not submitted yet. -/
  unsubmitted : List Choice
  /-- The branches that were submitted and whose results were not taken yet, in order. -/
  branches : List Branch
  meter : Meter
  statistics : Statistics
  /-- What the search has come to, once it is decided. -/
  answer? : Option (Except Fault Verdict) := none

/-- The search from the states after the first step. -/
def task (settings : SearchSettings) (problem : Problem) : SearchTask :=
  ⟨problem.schema, settings.checked, problem.goal, problem.horizon⟩

namespace Stage

def isRunning : Stage → Bool
  | running _ => true
  | _ => false

def begin (settings : SearchSettings) (problem : Problem) (s : State) (meter : Meter) :
    Stage × Meter :=
  match settings.table with
  | .error misuse => (.done (.error misuse), meter.start)
  | .ok table =>
      match settings.checkStart problem.schema s (.whole 2) with
      | .error failure => (.done (.error failure), meter.start)
      | .ok () => (.running (.initial (problem.horizon - 2) s table meter.start), meter.start)

def work (settings : SearchSettings) (problem : Problem) (m : Machine) (meter : Meter) :
    Stage × Meter :=
  match Machine.step (task settings problem) { m with meter } with
  | .going n => (.running n, n.meter)
  | .halted ending n => (.done (Search.conclude settings 2 ending n.statistics), n.meter)

end Stage

namespace Pool

def initial (problem : Problem) (meter : Meter) : Pool where
  unsubmitted := problem.schema.candidates problem.initial
  branches := []
  meter := meter
  statistics := Counts.zero.visit 1

/-- Whether the search is decided and no branch is left that was not searched. -/
def IsOver (p : Pool) : Prop :=
  p.answer?.isSome = true ∧ ∀ b ∈ p.branches, ∃ result, b.stage = .done result

/-- Submit the branch of a choice, with others left, if the choice is not refused. -/
def submit (p : Pool) (choice : Choice) (rest : List Choice) : Except Failure State → Pool
  | .ok s => { p with unsubmitted := rest, branches := p.branches ++ [⟨choice, s, .waiting⟩] }
  | .error failure => { p with answer? := some (.error failure) }

/-- Take the result of the first branch, with others left. -/
def take (problem : Problem) (p : Pool) (choice : Choice) (rest : List Branch) :
    Except Fault Outcome → Pool
  | .error fault => { p with answer? := some (.error fault) }
  | .ok outcome =>
      let statistics := p.statistics.merge outcome.statistics
      match outcome.verdict with
      | .noPlan => { p with branches := rest, statistics }
      | .aborted reason =>
          { p with statistics, meter := p.meter.cancel, answer? := some (.ok (.aborted reason)) }
      | .success timeline =>
          { p with
            statistics
            meter := p.meter.cancel
            answer? := some (.ok (.success (timeline.precede problem.initial choice))) }

def outcome (problem : Problem) (p : Pool) (verdict : Verdict) : Outcome where
  verdict := verdict
  statistics :=
    { p.statistics with
      transitions :=
        p.statistics.transitions + (problem.schema.candidates problem.initial).length
      elapsedMs := .real (p.meter.elapsed.1 * 1000) }
  startStep := 1

end Pool

/-- The turns that threads can take, at most so many workers being busy at a time. -/
inductive Turn (workers : Nat) (settings : SearchSettings) (problem : Problem) :
    Pool → Pool → Prop where
  /-- The next branch is submitted. -/
  | submit {p : Pool} {choice : Choice} {rest : List Choice} (undecided : p.answer? = none)
      (next : p.unsubmitted = choice :: rest) :
      Turn workers settings problem p
        (p.submit choice rest
          (problem.schema.advance settings.checked problem.initial choice (.whole 1)))
  /-- A worker begins with a branch that waits. -/
  | begin {p : Pool} {before after : List Branch} {b : Branch}
      (split : p.branches = before ++ b :: after) (waits : b.stage = .waiting)
      (idle : p.branches.countP (·.stage.isRunning) < workers) :
      Turn workers settings problem p
        { p with
          branches :=
            before ++ { b with stage := (Stage.begin settings problem b.start p.meter).1 } :: after
          meter := (Stage.begin settings problem b.start p.meter).2 }
  /-- A worker makes one step of its search. -/
  | work {p : Pool} {before after : List Branch} {b : Branch} {m : Machine}
      (split : p.branches = before ++ b :: after) (runs : b.stage = .running m) :
      Turn workers settings problem p
        { p with
          branches :=
            before ++ { b with stage := (Stage.work settings problem m p.meter).1 } :: after
          meter := (Stage.work settings problem m p.meter).2 }
  /-- All branches were submitted, and the result of the first one is taken. -/
  | take {p : Pool} {b : Branch} {rest : List Branch} {result : Except Fault Outcome}
      (undecided : p.answer? = none) (submitted : p.unsubmitted = [])
      (first : p.branches = b :: rest) (done : b.stage = .done result) :
      Turn workers settings problem p (p.take problem b.choice rest result)
  /-- All results were taken. -/
  | finish {p : Pool} (undecided : p.answer? = none) (submitted : p.unsubmitted = [])
      (none : p.branches = []) :
      Turn workers settings problem p { p with answer? := some (.ok .noPlan) }

abbrev Turns (workers : Nat) (settings : SearchSettings) (problem : Problem) :
    Pool → Pool → Prop :=
  Relation.ReflTransGen (Turn workers settings problem)

/-- The meter that a search by branches begins with. -/
def firstMeter (settings : SearchSettings) : Meter := (Meter.fresh settings.budget .still).start

/--
What a search by branches can return that begins with a meter, depending on the
turns of its threads.
-/
inductive ReturnsFrom (workers : Nat) (settings : SearchSettings) (problem : Problem)
    (first : Meter) : Except Fault Outcome → Prop where
  /-- There is nothing to branch on. -/
  | direct (decided : (problem.horizon = 1 || problem.isGoal problem.initial) = true) :
      ReturnsFrom workers settings problem first
        (Search.run problem.schema settings problem.initial problem.goal problem.horizon 1 first).1
  /-- The first visit is refused. -/
  | refused {reason : Refusal} {meter : Meter}
      (undecided : (problem.horizon = 1 || problem.isGoal problem.initial) = false)
      (charged : first.charge = (some reason, meter)) :
      ReturnsFrom workers settings problem first (.ok ⟨.aborted reason, Counts.zero, 1⟩)
  /-- The initial state does not pass the checks. -/
  | unfit {meter : Meter} {failure : Failure}
      (undecided : (problem.horizon = 1 || problem.isGoal problem.initial) = false)
      (charged : first.charge = (none, meter))
      (fails : settings.checkStart problem.schema problem.initial (.whole 1) = .error failure) :
      ReturnsFrom workers settings problem first (.error failure)
  /-- The threads have taken their turns. -/
  | pooled {meter : Meter} {p : Pool} {answer : Except Fault Verdict}
      (undecided : (problem.horizon = 1 || problem.isGoal problem.initial) = false)
      (charged : first.charge = (none, meter))
      (passes : settings.checkStart problem.schema problem.initial (.whole 1) = .ok ())
      (turns : Turns workers settings problem (Pool.initial problem meter) p)
      (ended : p.IsOver) (answers : p.answer? = some answer) :
      ReturnsFrom workers settings problem first (answer.map (p.outcome problem))

/-- What it can return that begins with its own meter, whose clock stands still. -/
abbrev Returns (workers : Nat) (settings : SearchSettings) (problem : Problem) :
    Except Fault Outcome → Prop :=
  ReturnsFrom workers settings problem (firstMeter settings)

end Branching

end StackingPlanner
