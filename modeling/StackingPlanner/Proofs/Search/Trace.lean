import Mathlib.Data.List.Chain
import StackingPlanner.Proofs.Search.Balance

/-!
# The turns of a search

A run of the machine takes turns: at the head of each the machine looks at its
stack, and a step leads to the next one or halts.  The trace of a run lists the
machines at the heads of its turns, the last one being the machine that halts,
and what every step keeps holds of all of them.  No turn is taken without a
frame: a machine whose stack is empty only says that everything has failed.
-/

namespace StackingPlanner

namespace Machine

variable {task : SearchTask} {m n : Machine}

/-- The machines that a run goes through, up to the one whose step halts. -/
def trace (task : SearchTask) (m : Machine) : List Machine :=
  match _next : step task m with
  | .going n => m :: trace task n
  | .halted _ _ => [m]
termination_by weight task m
decreasing_by exact weight_lt_of_step _next

/-- The number of turns among machines: those that have a frame to look at. -/
def countTurns (machines : List Machine) : Nat := machines.countP (fun m => !m.frames.isEmpty)

/-- Machines each of which leads to the next by one step, from a first one to one that halts. -/
structure IsRun (task : SearchTask) (first : Machine) (machines : List Machine) (ending : Ending)
    (halted : Machine) : Prop where
  head : machines.head? = some first
  steps : machines.IsChain (fun m n => step task m = .going n)
  halts : ∃ last, machines.getLast? = some last ∧ step task last = .halted ending halted

theorem trace_of_going (next : step task m = .going n) : trace task m = m :: trace task n := by
  rw [trace]
  split
  · rename_i other same
    cases next.symm.trans same
    rfl
  · rename_i halted
    cases next.symm.trans halted

theorem trace_of_halted {ending : Ending} (next : step task m = .halted ending n) :
    trace task m = [m] := by
  rw [trace]
  split
  · rename_i going
    cases next.symm.trans going
  · rfl

theorem isRun_trace (task : SearchTask) (m : Machine) :
    IsRun task m (trace task m) (run task m).1 (run task m).2 := by
  induction m using run.induct task with
  | case1 m n next ih =>
      obtain ⟨last, final, halts⟩ := ih.halts
      rw [trace_of_going next, run_of_going next]
      refine ⟨rfl, List.isChain_cons.mpr ⟨?_, ih.steps⟩, last, ?_, halts⟩
      · rw [ih.head]
        rintro k ⟨⟩
        exact next
      · rw [List.getLast?_cons, final]
        rfl
  | case2 m ending last next =>
      rw [trace_of_halted next, run_of_halted next]
      exact ⟨rfl, List.isChain_singleton m, m, rfl, next⟩

/-- What every step keeps holds at each turn. -/
theorem forall_mem_trace {keeps : Machine → Prop}
    (preserved : ∀ k n, keeps k → step task k = .going n → keeps n) (holds : keeps m) :
    ∀ n ∈ trace task m, keeps n := by
  induction m using run.induct task with
  | case1 m n next ih =>
      rw [trace_of_going next]
      exact List.forall_mem_cons.mpr ⟨holds, ih (preserved m n holds next)⟩
  | case2 m ending last next =>
      rw [trace_of_halted next]
      exact List.forall_mem_singleton.mpr holds

end Machine

namespace Search

/--
A search that gets to its first turn: its steps are in order, its table could be
made, and checks, if they are wanted, pass the state that it starts in.
-/
structure Begins (schema : Schema) (settings : SearchSettings) (initial : State)
    (horizon startStep : Int) (table : Option StateTable) : Prop where
  first : 1 ≤ startStep
  order : startStep ≤ horizon
  made : settings.table = .ok table
  passes : settings.checkStart schema initial (.whole startStep) = .ok ()

/-- The machines at the turns of a search; there are none if it does not begin. -/
def trace (schema : Schema) (settings : SearchSettings) (initial : State)
    (goal : OrderedSet Literal) (horizon startStep : Int) (meter : Meter) : List Machine :=
  if startStep < 1 ∨ horizon < startStep then []
  else
    match settings.table, settings.checkStart schema initial (.whole startStep) with
    | .ok table, .ok () =>
        Machine.trace ⟨schema, settings.checked, goal, horizon.toNat⟩
          (.initial (horizon - startStep).toNat initial table meter.start)
    | _, _ => []

section

variable {schema : Schema} {settings : SearchSettings} {initial : State}
  {goal : OrderedSet Literal} {horizon startStep : Int} {meter : Meter}
  {table : Option StateTable}

theorem Begins.inOrder (begins : Begins schema settings initial horizon startStep table) :
    ¬ (startStep < 1 ∨ horizon < startStep) := by
  have first := begins.first
  have order := begins.order
  omega

theorem Begins.trace_eq (begins : Begins schema settings initial horizon startStep table) :
    trace schema settings initial goal horizon startStep meter =
      Machine.trace ⟨schema, settings.checked, goal, horizon.toNat⟩
        (.initial (horizon - startStep).toNat initial table meter.start) := by
  simp only [trace, if_neg begins.inOrder, begins.made, begins.passes]

theorem exists_begins_of_mem_trace {m : Machine}
    (member : m ∈ trace schema settings initial goal horizon startStep meter) :
    ∃ table, Begins schema settings initial horizon startStep table := by
  unfold trace at member
  split at member
  · cases member
  · rename_i order
    split at member
    · rename_i table made passes
      exact ⟨table, by omega, by omega, made, passes⟩
    · cases member

theorem Fit.begins (fit : Fit schema settings initial startStep meter) (first : 1 ≤ startStep)
    (order : startStep ≤ horizon) (made : settings.table = .ok table) :
    Begins schema settings initial horizon startStep table :=
  ⟨first, order, made, fit.passes⟩

/-- A search that begins takes turns up to one that halts, and reports how it has halted. -/
theorem Begins.exists_isRun (begins : Begins schema settings initial horizon startStep table)
    (goal : OrderedSet Literal) (meter : Meter) :
    ∃ ending halted,
      Machine.IsRun ⟨schema, settings.checked, goal, horizon.toNat⟩
        (.initial (horizon - startStep).toNat initial table meter.start)
        (trace schema settings initial goal horizon startStep meter) ending halted ∧
      run schema settings initial goal horizon startStep meter =
        (conclude settings startStep ending halted.statistics, halted.meter) := by
  refine ⟨_, _, ?_, run_eq begins.inOrder begins.made begins.passes⟩
  rw [begins.trace_eq]
  exact Machine.isRun_trace _ _

end

end Search

end StackingPlanner
