import StackingPlanner.Description.Puzzles
import StackingPlanner.Search.Outcome
import StackingPlanner.Proofs.Schema.Verify
import StackingPlanner.Proofs.Search.Invariant
import StackingPlanner.Proofs.Search.Settings
import StackingPlanner.Proofs.Search.Solution

/-!
# The search finds what the plain search finds

With an unlimited budget, and unless its checks refuse the first state, a search
ends like the plain search, whatever its table forgets: with the timeline of
what that finds, or without a plan.  So it succeeds exactly if the goal can be
reached in the given number of steps.
-/

namespace StackingPlanner

/-- From a state that is sane, if checks are made, no choice is refused. -/
theorem Schema.Accepted.smooth {schema : Schema} (accepted : schema.Accepted) {checked : Bool}
    {start : State}
    (sane : checked = true → start.scope = schema.scope ∧ schema.Sane start) :
    schema.Smooth checked start := by
  intro choices s walk choice allowed at?
  cases checked with
  | false => rfl
  | true =>
      obtain ⟨sameScope, sane⟩ := sane rfl
      have scope : s.scope = schema.scope := walk.scope_eq.trans sameScope
      exact (sane.walk accepted walk).advance accepted scope allowed true at?

namespace Machine

variable {task : SearchTask} {start : State} {count : Nat} {m : Machine}

theorem serves_step (task : SearchTask) {m : Machine} {b : Budget} (serves : m.meter.Serves b) :
    (step task m).machine.meter.Serves b := by
  rcases (move_step task m).meter_eq with same | charged
  · rw [same]
    exact serves
  · rw [charged]
    exact serves.charged

theorem unlimited_step (task : SearchTask) {m : Machine} (unlimited : m.meter.Unlimited) :
    (step task m).machine.meter.Unlimited := by
  obtain ⟨same, granting⟩ := serves_step task unlimited.serves
  exact ⟨same ▸ unlimited.unbounded, granting⟩

theorem imposes_of_halt {task : SearchTask} {m last : Machine} {b : Budget} {reason : Refusal}
    (serves : m.meter.Serves b) (halts : step task m = .halted (.refused reason) last) :
    b.Imposes reason := by
  cases move_of_halt halts with
  | refuse _ charged => exact serves.imposes charged

/-- A run ends with a meter of its budget, and a visit was refused only for what that imposes. -/
theorem run_serves (task : SearchTask) (m : Machine) {b : Budget} (serves : m.meter.Serves b) :
    (run task m).2.meter.Serves b ∧ ∀ reason, (run task m).1 = .refused reason →
      b.Imposes reason := by
  have preserved : ∀ m n : Machine, m.meter.Serves b → step task m = .going n →
      n.meter.Serves b := by
    intro m n serves next
    have after := serves_step task serves
    rw [next] at after
    exact after
  obtain ⟨last, servesLast, halts⟩ := run_keeps preserved serves
  generalize run task m = ended at halts ⊢
  obtain ⟨ending, final⟩ := ended
  have after := serves_step task servesLast
  rw [halts] at after
  refine ⟨after, ?_⟩
  rintro reason rfl
  exact imposes_of_halt servesLast halts

theorem run_unlimited (task : SearchTask) (m : Machine) (unlimited : m.meter.Unlimited) :
    (run task m).2.meter.Unlimited ∧ ∀ reason, (run task m).1 ≠ .refused reason := by
  obtain ⟨⟨same, granting⟩, imposes⟩ := run_serves task m unlimited.serves
  exact ⟨⟨same ▸ unlimited.unbounded, granting⟩, fun reason refused =>
    Budget.not_imposes_of_unlimited unlimited.unbounded reason (imposes reason refused)⟩

/-- However a run ends, its ending tells what the plain search finds. -/
theorem run_answers (smooth : task.schema.Smooth task.checked start)
    (sound : m.Sound task start count) :
    (run task m).1.Answers task start count := by
  have preserved : ∀ m n, m.Sound task start count → step task m = .going n →
      n.Sound task start count :=
    fun m n sound next => sound.move smooth (move_of_step next)
  obtain ⟨last, soundLast, halts⟩ := run_keeps preserved sound
  exact soundLast.move smooth (move_of_halt halts)

theorem run_initial_answers (task : SearchTask)
    (smooth : task.schema.Smooth task.checked start) {table : Option StateTable}
    (trusts : task.Trusts table) (meter : Meter) (count : Nat) :
    (run task (initial count start table meter)).1.Answers task start count :=
  run_answers smooth (sound_initial trusts meter)

end Machine

def Verdict.ofSteps? (start : State) : Option Steps → Verdict
  | some steps => .success (Timeline.ofSteps start steps)
  | none => .noPlan

namespace Search

/--
A search with an accepted schema and an unlimited meter, from a state that, if
checks are made, speaks about the fluents of the schema and passes them.
-/
structure Fit (schema : Schema) (settings : SearchSettings) (initial : State) (startStep : Int)
    (meter : Meter) : Prop where
  built : ∃ objects declared, Schema.build objects declared = .ok schema
  verified : settings.checked = true →
    initial.scope = schema.scope ∧ schema.verify initial (.whole startStep) none = .ok ()
  unlimited : meter.Unlimited

/-- Nothing cuts a search short: it is fit, and its table has room. -/
structure Unhindered (schema : Schema) (settings : SearchSettings) (initial : State)
    (startStep : Int) (meter : Meter) : Prop
    extends Fit schema settings initial startStep meter where
  room : settings.HasRoom

section

variable {schema : Schema} {settings : SearchSettings} {initial : State} {startStep horizon : Int}
  {meter : Meter}

theorem Fit.accepted (fit : Fit schema settings initial startStep meter) : schema.Accepted := by
  obtain ⟨objects, declared, built⟩ := fit.built
  exact Schema.accepted_of_build built

theorem Fit.passes (fit : Fit schema settings initial startStep meter) :
    settings.checkStart schema initial (.whole startStep) = .ok () := by
  unfold SearchSettings.checkStart
  split
  · rename_i checked
    exact (fit.verified checked).2
  · rfl

theorem Fit.sane (fit : Fit schema settings initial startStep meter)
    (checked : settings.checked = true) :
    initial.scope = schema.scope ∧ schema.Sane initial := by
  obtain ⟨sameScope, passes⟩ := fit.verified checked
  exact ⟨sameScope, (Schema.verify_eq_ok_iff fit.accepted sameScope _ _).mp passes⟩

theorem Fit.smooth (fit : Fit schema settings initial startStep meter) :
    schema.Smooth settings.checked initial :=
  fit.accepted.smooth fit.sane

theorem Unhindered.untabled (free : Unhindered schema settings initial startStep meter) :
    Unhindered schema { settings with usesTable := false } initial startStep meter where
  built := free.built
  verified := free.verified
  unlimited := free.unlimited
  room := nofun

theorem conclude_verdict {task : SearchTask} {count : Nat} {ending : Ending}
    (answers : ending.Answers task initial count) (granted : ∀ reason, ending ≠ .refused reason)
    (statistics : Statistics) :
    (conclude settings startStep ending statistics).map (·.verdict) =
      .ok (.ofSteps? initial (task.plain? count initial)) := by
  cases ending with
  | reached timeline =>
      obtain ⟨steps, found, rfl⟩ := answers
      rw [found]
      rfl
  | exhausted =>
      have fails : task.plain? count initial = none := answers
      rw [fails]
      rfl
  | refused reason => exact absurd rfl (granted reason)
  | broken failure => cases answers
  | narrow => cases answers

/-- A fit search with room has the verdict of the plain search, and leaves its meter unlimited. -/
theorem Fit.run (fit : Fit schema settings initial startStep meter) (roomy : settings.Roomy)
    (goal : OrderedSet Literal) (first : 1 ≤ startStep) (order : startStep ≤ horizon) :
    (Search.run schema settings initial goal horizon startStep meter).1.map (·.verdict) =
        .ok (.ofSteps? initial
          (schema.leftmost? goal.toList (horizon - startStep).toNat initial)) ∧
      (Search.run schema settings initial goal horizon startStep meter).2.Unlimited := by
  obtain ⟨table, made, new⟩ := roomy
  have inOrder : ¬ (startStep < 1 ∨ horizon < startStep) := by omega
  rw [Search.run, if_neg inOrder, runFrom, made]
  simp only [fit.passes]
  have answers := Machine.run_initial_answers
    ⟨schema, settings.checked, goal, horizon.toNat⟩ fit.smooth (SearchTask.trusts_of_empty new)
    meter.start (horizon - startStep).toNat
  have granted := Machine.run_unlimited ⟨schema, settings.checked, goal, horizon.toNat⟩
    (Machine.initial (horizon - startStep).toNat initial table meter.start)
    fit.unlimited.start
  exact ⟨conclude_verdict answers granted.2 _, granted.1⟩

/-! ## A disc on one of two pegs -/

section LoneDisc

/-- The objects of a tower puzzle with one disc and two pegs. -/
def loneDiscObjects : List DomainObject :=
  Puzzle.declare "disc" ["a"] ++ Puzzle.declare "peg" ["p", "q"]

def loneDisc : Schema :=
  let disc : Category := ⟨"disc", .one, OrderedSet.ofList ["disc"], true, true⟩
  let peg : Category := ⟨"peg", .one, OrderedSet.ofList ["disc"], false, true⟩
  Schema.ofMembers [disc, peg] [⟨"a", disc⟩, ⟨"p", peg⟩, ⟨"q", peg⟩]

def loneDiscStart : State :=
  ⟨loneDisc.scope, OrderedSet.ofList [.on "a" "p", .clear "a", .clear "q", .handEmpty]⟩

def loneDiscGoal : OrderedSet Literal := OrderedSet.ofList [.holds (.on "a" "q")]

theorem build_loneDisc : Schema.build loneDiscObjects Puzzle.Tower.categories = .ok loneDisc := by
  have order : sorted loneDiscObjects = loneDiscObjects := List.mergeSort_of_pairwise (by decide)
  rw [Schema.build, order]
  rfl

theorem unhindered_loneDisc : Unhindered loneDisc {} loneDiscStart 1 (Meter.fresh {} .still) where
  built := ⟨loneDiscObjects, Puzzle.Tower.categories, build_loneDisc⟩
  verified _ := ⟨rfl, rfl⟩
  room := SearchSettings.hasRoom_of_whole (by decide) rfl
  unlimited := Meter.unlimited_fresh rfl .still

end LoneDisc

/-! ## What a search finds -/

/--
An unhindered search has the verdict of the plain search, with and without a
table and whatever the table forgets.  The plain search tries nothing first and
then the executable actions in the order of operator and arguments, and
`advance` leads from each state of it to the state after a choice.
-/
theorem run_refines_leftmost (free : Unhindered schema settings initial startStep meter)
    (goal : OrderedSet Literal) (first : 1 ≤ startStep) (order : startStep ≤ horizon) :
    (Search.run schema settings initial goal horizon startStep meter).1.map (·.verdict) =
        .ok (.ofSteps? initial
          (schema.leftmost? goal.toList (horizon - startStep).toNat initial)) ∧
      (∀ s, ∃ actions : List Action, schema.candidates s = none :: actions.map some ∧
        (∀ a, a ∈ actions ↔ a ∈ schema.actions ∧ a.isExecutable s = true) ∧
        actions.Pairwise (fun a b => a.words < b.words)) ∧
      schema.Smooth settings.checked initial := by
  refine ⟨(free.run free.room.roomy goal first order).1, fun s => ?_, free.smooth⟩
  refine ⟨schema.executable s, rfl, fun a => List.mem_filter, ?_⟩
  exact free.accepted.actions_pairwise.sublist List.filter_sublist

theorem run_refines_leftmost_loneDisc :
    (Search.run loneDisc {} loneDiscStart loneDiscGoal 5 1 (Meter.fresh {} .still)).1.map
        (·.verdict) =
      .ok (.ofSteps? loneDiscStart (loneDisc.leftmost? loneDiscGoal.toList 4 loneDiscStart)) :=
  (run_refines_leftmost unhindered_loneDisc loneDiscGoal (by decide) (by decide)).1

/--
An unhindered search succeeds exactly if choices that `advance` makes, one for
each step up to the horizon, lead to a state in which the goal holds; otherwise
it finds that there is no plan.  The timeline of a success solves the search.
Checks, if they are made, refuse none of the choices that are possible.
-/
theorem run_sound_complete (free : Unhindered schema settings initial startStep meter)
    (goal : OrderedSet Literal) (first : 1 ≤ startStep) (order : startStep ≤ horizon) :
    ∃ outcome,
      (Search.run schema settings initial goal horizon startStep meter).1 = .ok outcome ∧
      (outcome.verdict.isSuccess = true ↔
        ∃ choices last, (choices.length : Int) = horizon - startStep ∧
          schema.Course settings.checked startStep initial choices last ∧
          last.satisfies goal.toList = true) ∧
      (outcome.verdict.isSuccess = false → outcome.verdict = .noPlan) ∧
      (∀ timeline, outcome.verdict = .success timeline →
        timeline.Solves schema settings.checked goal.toList startStep initial
          (horizon - startStep).toNat) ∧
      schema.Smooth settings.checked initial := by
  have verdict := (free.run free.room.roomy goal first order).1
  have reachable : schema.Reaches goal.toList initial (horizon - startStep).toNat ↔
      ∃ choices last, (choices.length : Int) = horizon - startStep ∧
        schema.Course settings.checked startStep initial choices last ∧
        last.satisfies goal.toList = true := by
    simp only [Schema.Reaches, free.smooth.course_iff]
    have count : ∀ n : Nat, n = (horizon - startStep).toNat ↔ (n : Int) = horizon - startStep := by
      omega
    simp only [count]
  rw [← reachable, ← Schema.leftmost?_isSome_iff]
  obtain ⟨outcome, finished, same⟩ := Except.exists_of_map_eq_ok verdict
  refine ⟨outcome, finished, ?_⟩
  rw [same]
  cases found : schema.leftmost? goal.toList (horizon - startStep).toNat initial with
  | none =>
      refine ⟨by simp [Verdict.ofSteps?, Verdict.isSuccess], fun _ => rfl, ?_, free.smooth⟩
      rintro timeline ⟨⟩
  | some steps =>
      refine ⟨by simp [Verdict.ofSteps?, Verdict.isSuccess], ?_, ?_, free.smooth⟩
      · rintro ⟨⟩
      · rintro timeline ⟨⟩
        obtain ⟨play, length⟩ := Schema.leftmost?_play found
        rw [← length]
        exact Timeline.solves_of_play free.smooth play startStep

theorem run_sound_complete_loneDisc :
    ∃ outcome,
      (Search.run loneDisc {} loneDiscStart loneDiscGoal 5 1 (Meter.fresh {} .still)).1 =
        .ok outcome ∧
      (∀ timeline, outcome.verdict = .success timeline →
        timeline.Solves loneDisc true loneDiscGoal.toList 1 loneDiscStart 4) ∧
      loneDisc.Smooth true loneDiscStart := by
  obtain ⟨outcome, finished, _, _, solves, smooth⟩ :=
    run_sound_complete unhindered_loneDisc loneDiscGoal (by decide : (1 : Int) ≤ 1)
      (by decide : (1 : Int) ≤ 5)
  exact ⟨outcome, finished, solves, smooth⟩

end

end Search

end StackingPlanner
