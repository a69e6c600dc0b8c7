import StackingPlanner.Proofs.Schema.Positions
import StackingPlanner.Proofs.Search.Independence

/-!
# The checks at run time are redundant

Every state of a walk from a sane state is sane, so no check at run time finds
anything on it.  The frames of a search are on walks from its start and the
choices that they have not tried yet can be made, so each step of the machine
with checks is a step without them.
-/

namespace StackingPlanner

namespace Schema

variable {schema : Schema} {s t : State}

/-- No check finds anything wrong with a sane state. -/
theorem Sane.inspect_eq (sane : schema.Sane s) (accepted : schema.Accepted) :
    schema.inspect s = .ok [] :=
  (inspect_eq_nil_iff accepted sane.within).mpr sane

theorem Sane.checkScope (sane : schema.Sane s) (sameScope : s.scope = schema.scope)
    (step : Value) : s.checkScope step = .ok () := by
  have none : s.strays.isEmpty = true := by
    simp only [State.strays, OrderedSet.isEmpty, OrderedSet.filter, sameScope, List.isEmpty_iff,
      List.filter_eq_nil_iff, Bool.not_eq_true', decide_eq_false_iff_not, Classical.not_not]
    exact sane.within
  rw [State.checkScope, if_pos none]

end Schema

/-- A state from which no check of a search finds anything. -/
structure SearchSettings.Admits (settings : SearchSettings) (schema : Schema) (s : State) :
    Prop where
  sameScope : settings.checked = true → s.scope = schema.scope
  sane : settings.checked = true → schema.Sane s

namespace SearchSettings

variable {settings : SearchSettings} {schema : Schema} {s : State}

theorem Admits.smooth (admits : settings.Admits schema s) (accepted : schema.Accepted) :
    schema.Smooth settings.checked s :=
  accepted.smooth (fun checked => ⟨admits.sameScope checked, admits.sane checked⟩)

theorem Admits.checkStart (admits : settings.Admits schema s) (accepted : schema.Accepted)
    (step : Value) : settings.checkStart schema s step = .ok () := by
  unfold SearchSettings.checkStart
  split
  · rename_i checked
    exact (Schema.verify_eq_ok_iff accepted (admits.sameScope checked) _ _).mpr
      (admits.sane checked)
  · rfl

theorem Admits.after (admits : settings.Admits schema s) (accepted : schema.Accepted)
    {choice : Choice} (allowed : schema.Allows s choice) :
    settings.Admits schema (s.after choice) where
  sameScope checked := (State.after_scope s choice).trans (admits.sameScope checked)
  sane checked := (admits.sane checked).after accepted allowed

end SearchSettings

def SearchTask.unchecked (task : SearchTask) : SearchTask := { task with checked := false }

/-- A frame whose state is on a walk and whose untried choices can be made. -/
structure Frame.OnWalk (schema : Schema) (start : State) (f : Frame) : Prop where
  reached : ∃ choices, schema.Walk start choices f.state
  allowed : ∀ untried, f.pending = some untried → ∀ choice ∈ untried, schema.Allows f.state choice

namespace Frame

variable {task : SearchTask} {start : State} {f : Frame} {choice : Choice}

theorem OnWalk.advance_eq (onWalk : f.OnWalk task.schema start)
    (smooth : task.schema.Smooth task.checked start) (allowed : task.schema.Allows f.state choice)
    (step : Value) :
    task.schema.advance task.checked f.state choice step = .ok (f.state.after choice) := by
  obtain ⟨choices, walk⟩ := onWalk.reached
  exact smooth choices f.state walk choice allowed step

theorem OnWalk.push (onWalk : f.OnWalk task.schema start)
    (smooth : task.schema.Smooth task.checked start) {untried : List Choice}
    (allowed : ∀ other ∈ choice :: untried, task.schema.Allows f.state other) {step : Value}
    {successor : State}
    (advanced : task.schema.advance task.checked f.state choice step = .ok successor)
    {below : List Frame} (others : ∀ g ∈ below, g.OnWalk task.schema start) :
    ∀ g ∈ Frame.fresh (f.remaining - 1) successor ::
      ⟨f.remaining, f.state, choice, some untried⟩ :: below, g.OnWalk task.schema start := by
  have here := allowed choice List.mem_cons_self
  cases advanced.symm.trans (onWalk.advance_eq smooth here step)
  obtain ⟨choices, walk⟩ := onWalk.reached
  intro g member
  rcases List.mem_cons.mp member with rfl | member
  · exact ⟨⟨_, walk.snoc here⟩, fun _ pending => nomatch pending⟩
  · rcases List.mem_cons.mp member with rfl | member
    · refine ⟨⟨choices, walk⟩, fun untried pending other listed => ?_⟩
      cases pending
      exact allowed other (List.mem_cons_of_mem _ listed)
    · exact others g member

end Frame

namespace Machine

variable {task : SearchTask} {start : State}

/-- Each step of a search keeps its frames on walks. -/
theorem onWalk_of_step (smooth : task.schema.Smooth task.checked start) {m n : Machine}
    (onWalk : ∀ f ∈ m.frames, f.OnWalk task.schema start) (next : step task m = .going n) :
    ∀ f ∈ n.frames, f.OnWalk task.schema start := by
  cases move_of_step next with
  | fail => exact fun g member => onWalk g (List.mem_cons_of_mem _ member)
  | prune => exact fun g member => onWalk g (List.mem_cons_of_mem _ member)
  | close => exact fun g member => onWalk g (List.mem_cons_of_mem _ member)
  | descend _ _ _ _ _ candidates advanced =>
      obtain ⟨top, others⟩ := List.forall_mem_cons.mp onWalk
      refine top.push smooth (fun other listed => ?_) advanced others
      exact Schema.mem_candidates_iff.mp (candidates ▸ listed)
  | retry pending advanced =>
      obtain ⟨top, others⟩ := List.forall_mem_cons.mp onWalk
      exact top.push smooth (top.allowed _ pending) advanced others

section Unchecked

variable {f : Frame} {below : List Frame} {table : Option StateTable} {meter : Meter}
  {statistics : Statistics}

theorem tryChoice_unchecked (smooth : task.schema.Smooth task.checked start)
    (onWalk : f.OnWalk task.schema start) {choice : Choice}
    (allowed : task.schema.Allows f.state choice) (untried : List Choice) :
    tryChoice task f choice untried below table meter statistics =
      tryChoice task.unchecked f choice untried below table meter statistics := by
  have checked := onWalk.advance_eq smooth allowed (.whole (f.step task))
  have unchecked : task.unchecked.schema.advance task.unchecked.checked f.state choice
      (.whole (f.step task.unchecked)) = .ok (f.state.after choice) := rfl
  simp only [tryChoice, checked, unchecked]

theorem expand_unchecked (smooth : task.schema.Smooth task.checked start)
    (onWalk : f.OnWalk task.schema start) :
    expand task f below table meter statistics =
      expand task.unchecked f below table meter statistics := by
  unfold expand
  split
  · rfl
  · split
    · rfl
    · have same : task.unchecked.schema.candidates f.state = task.schema.candidates f.state := rfl
      rw [same]
      split
      · rfl
      · rename_i choice untried candidates
        have allowed : task.schema.Allows f.state choice :=
          Schema.mem_candidates_iff.mp (candidates ▸ List.mem_cons_self)
        exact tryChoice_unchecked smooth onWalk allowed untried

theorem step_unchecked (smooth : task.schema.Smooth task.checked start) {m : Machine}
    (onWalk : ∀ f ∈ m.frames, f.OnWalk task.schema start) :
    step task m = step task.unchecked m := by
  obtain ⟨frames, table, meter, statistics⟩ := m
  cases frames with
  | nil => rfl
  | cons f below =>
      have top := onWalk f List.mem_cons_self
      cases pending : f.pending with
      | none =>
          simp only [step, pending, visit, expand_unchecked smooth top]
          rfl
      | some untried =>
          cases untried with
          | nil => simp only [step, pending]
          | cons choice untried =>
              have allowed := top.allowed _ pending choice List.mem_cons_self
              simp only [step, pending, tryChoice_unchecked smooth top allowed]

/-- A run of a search on walks does not depend on its checks. -/
theorem run_unchecked (smooth : task.schema.Smooth task.checked start) {m : Machine}
    (onWalk : ∀ f ∈ m.frames, f.OnWalk task.schema start) :
    run task m = run task.unchecked m := by
  induction m using run.induct task with
  | case1 m n next ih =>
      have same := (step_unchecked smooth onWalk).symm.trans next
      rw [run_of_going next, run_of_going same]
      exact ih (onWalk_of_step smooth onWalk next)
  | case2 m ending n halted =>
      have same := (step_unchecked smooth onWalk).symm.trans halted
      rw [run_of_halted halted, run_of_halted same]

end Unchecked

theorem run_not_broken (smooth : task.schema.Smooth task.checked start) {m : Machine}
    (onWalk : ∀ f ∈ m.frames, f.OnWalk task.schema start) (failure : Failure) :
    (run task m).1 ≠ .broken failure := by
  obtain ⟨last, onWalk, halts⟩ :=
    run_keeps (fun _ _ onWalk next => onWalk_of_step smooth onWalk next) onWalk
  intro broken
  rw [broken] at halts
  cases move_of_halt halts with
  | @breach f _ _ _ _ choice _ _ tried _ refused =>
      have top := onWalk f List.mem_cons_self
      have allowed : task.schema.Allows f.state choice := by
        rcases tried with candidate | ⟨untried, pending⟩
        · exact Schema.mem_candidates_iff.mp candidate
        · exact top.allowed _ pending choice List.mem_cons_self
      cases refused.symm.trans (top.advance_eq smooth allowed _)

end Machine

namespace Search

section

variable {schema : Schema} {settings : SearchSettings} {start : State} {goal : OrderedSet Literal}
  {horizon startStep : Int} {meter : Meter}

theorem onWalk_initial (count : Nat) (table : Option StateTable) (meter : Meter) :
    ∀ f ∈ (Machine.initial count start table meter).frames, f.OnWalk schema start := by
  intro f member
  rw [List.mem_singleton.mp member]
  exact ⟨⟨[], .nil start⟩, fun _ pending => nomatch pending⟩

theorem run_eq (inOrder : ¬ (startStep < 1 ∨ horizon < startStep)) {table : Option StateTable}
    (made : settings.table = .ok table)
    (passes : settings.checkStart schema start (.whole startStep) = .ok ()) :
    run schema settings start goal horizon startStep meter =
      (conclude settings startStep
          (Machine.run ⟨schema, settings.checked, goal, horizon.toNat⟩
            (.initial (horizon - startStep).toNat start table meter.start)).1
          (Machine.run ⟨schema, settings.checked, goal, horizon.toNat⟩
            (.initial (horizon - startStep).toNat start table meter.start)).2.statistics,
        (Machine.run ⟨schema, settings.checked, goal, horizon.toNat⟩
          (.initial (horizon - startStep).toNat start table meter.start)).2.meter) := by
  rw [run, if_neg inOrder, runFrom, made]
  simp only [passes]

theorem concluded_of_run {outcome : Outcome}
    (ended : (run schema settings start goal horizon startStep meter).1 = .ok outcome) :
    ∃ table, settings.table = .ok table ∧
      settings.checkStart schema start (.whole startStep) = .ok () ∧
      conclude settings startStep
        (Machine.run ⟨schema, settings.checked, goal, horizon.toNat⟩
          (.initial (horizon - startStep).toNat start table meter.start)).1
        (Machine.run ⟨schema, settings.checked, goal, horizon.toNat⟩
          (.initial (horizon - startStep).toNat start table meter.start)).2.statistics =
        .ok outcome := by
  unfold run at ended
  split at ended
  · cases ended
  · unfold runFrom at ended
    split at ended
    · cases ended
    · rename_i table made
      split at ended
      · cases ended
      · rename_i passes
        exact ⟨table, made, passes, ended⟩

theorem run_misuse (inOrder : ¬ (startStep < 1 ∨ horizon < startStep)) {misuse : Misuse}
    (made : settings.table = .error misuse) :
    run schema settings start goal horizon startStep meter = (.error misuse, meter.start) := by
  rw [run, if_neg inOrder, runFrom, made]

theorem conclude_ne_failure {ending : Ending} {statistics : Statistics}
    (granted : ∀ failure, ending ≠ .broken failure) (failure : Failure) :
    conclude settings startStep ending statistics ≠ .error (.failure failure) := by
  cases ending with
  | reached => simp [conclude]
  | exhausted => simp [conclude]
  | refused => simp [conclude]
  | broken other => exact absurd rfl (granted other)
  | narrow => simp [conclude]

/-- From a sane state a search ends as it does without checks, under every budget. -/
theorem run_unchecked (accepted : schema.Accepted) (sameScope : start.scope = schema.scope)
    (sane : schema.Sane start) :
    run schema { settings with checked := true } start goal horizon startStep meter =
      run schema { settings with checked := false } start goal horizon startStep meter := by
  have smooth : schema.Smooth true start := accepted.smooth (fun _ => ⟨sameScope, sane⟩)
  have passes := (Schema.verify_eq_ok_iff accepted sameScope (.whole startStep) none).mpr sane
  by_cases inOrder : startStep < 1 ∨ horizon < startStep
  · rw [run, run, if_pos inOrder, if_pos inOrder]
  · have sameTable : ∀ checked, { settings with checked }.table = settings.table := fun _ => rfl
    cases made : settings.table with
    | error misuse =>
        rw [run_misuse inOrder ((sameTable true).trans made),
          run_misuse inOrder ((sameTable false).trans made)]
    | ok table =>
        rw [run_eq inOrder ((sameTable true).trans made) passes,
          run_eq inOrder ((sameTable false).trans made) rfl,
          @Machine.run_unchecked ⟨schema, true, goal, horizon.toNat⟩ start smooth _
            (onWalk_initial _ _ _)]
        rfl

/-- From a sane state a search never fails its checks. -/
theorem run_ne_failure (accepted : schema.Accepted) (sameScope : start.scope = schema.scope)
    (sane : schema.Sane start) (failure : Failure) :
    (run schema settings start goal horizon startStep meter).1 ≠ .error (.failure failure) := by
  have admits : settings.Admits schema start := ⟨fun _ => sameScope, fun _ => sane⟩
  by_cases inOrder : startStep < 1 ∨ horizon < startStep
  · simp [run, if_pos inOrder]
  · cases made : settings.table with
    | error misuse => simp [run_misuse inOrder made]
    | ok table =>
        rw [run_eq inOrder made (admits.checkStart accepted _)]
        exact conclude_ne_failure
          (Machine.run_not_broken (admits.smooth accepted) (onWalk_initial _ _ _)) failure

theorem Fit.admits (fit : Fit schema settings start startStep meter) :
    settings.Admits schema start :=
  ⟨fun checked => (fit.sane checked).1, fun checked => (fit.sane checked).2⟩

end

/--
Initial states pass the checks, and so does every state of a walk from a state
that passes them.  A search from such a state with checks ends exactly as it
does without them, under every budget, and never because of a check.
-/
theorem checks_redundant {objects : List DomainObject} {declared : List CategoryDeclaration}
    {schema : Schema} (built : Schema.build objects declared = .ok schema) :
    (∀ literals s, schema.initialState literals = .ok s →
        s.scope = schema.scope ∧ ∀ step action, schema.verify s step action = .ok ()) ∧
      ∀ start : State, start.scope = schema.scope →
        ∀ step action, schema.verify start step action = .ok () →
          (∀ choices s, schema.Walk start choices s →
              (∀ step, s.checkScope step = .ok ()) ∧ schema.inspect s = .ok []) ∧
            ∀ (settings : SearchSettings) (goal : OrderedSet Literal) (horizon startStep : Int)
              (meter : Meter),
              run schema { settings with checked := true } start goal horizon startStep meter =
                  run schema { settings with checked := false } start goal horizon startStep
                    meter ∧
                ∀ failure, (run schema { settings with checked := true } start goal horizon
                  startStep meter).1 ≠ .error (.failure failure) := by
  have accepted := Schema.accepted_of_build built
  refine ⟨fun literals s described => ?_, fun start sameScope step action passes => ?_⟩
  · obtain ⟨sameScope, sane, -⟩ := Schema.sane_of_initialState accepted described
    exact ⟨sameScope, fun step action =>
      (Schema.verify_eq_ok_iff accepted sameScope step action).mpr sane⟩
  · have sane := (Schema.verify_eq_ok_iff accepted sameScope step action).mp passes
    refine ⟨fun choices s walk => ?_, fun settings goal horizon startStep meter => ?_⟩
    · have later := sane.walk accepted walk
      exact ⟨later.checkScope (walk.scope_eq.trans sameScope), later.inspect_eq accepted⟩
    · exact ⟨run_unchecked accepted sameScope sane, run_ne_failure accepted sameScope sane⟩

/-- The disc starts on the first peg, and a search for its way is cut short after two visits. -/
theorem checks_redundant_loneDisc :
    loneDisc.initialState [.holds (.on "a" "p")] = .ok loneDiscStart ∧
      loneDisc.verify loneDiscStart (.whole 1) none = .ok () ∧
      run loneDisc { checked := true } loneDiscStart loneDiscGoal 5 1
          (Meter.fresh { maxNodes := some (.whole 2) } .still) =
        run loneDisc { checked := false } loneDiscStart loneDiscGoal 5 1
          (Meter.fresh { maxNodes := some (.whole 2) } .still) := by
  have always := checks_redundant build_loneDisc
  obtain ⟨sameScope, passes⟩ := always.1 _ _ initialState_loneDisc
  have walks := always.2 loneDiscStart sameScope (.whole 1) none (passes _ _)
  exact ⟨initialState_loneDisc, passes _ _, (walks.2 {} loneDiscGoal 5 1 _).1⟩

end Search

end StackingPlanner
