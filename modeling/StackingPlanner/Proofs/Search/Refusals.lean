import StackingPlanner.Proofs.Search.Threads

/-!
# Why a search is aborted

Nothing cancels the meter of a search, and the meter that branches share is
cancelled only when their search is decided.  So as long as a result counts it
was aborted, if at all, for a reason that the budget imposes, and never because
it was cancelled.
-/

namespace StackingPlanner

/-- A verdict that was aborted, if it was, for a reason that a budget imposes. -/
def Verdict.Excused (b : Budget) (v : Verdict) : Prop :=
  ∀ reason, v = .aborted reason → b.Imposes reason

namespace Search

variable {schema : Schema} {settings : SearchSettings} {initial : State}
  {goal : OrderedSet Literal} {horizon startStep : Int} {meter : Meter} {b : Budget}

theorem excused_of_conclude {ending : Ending} {statistics : Statistics} {outcome : Outcome}
    (imposed : ∀ reason, ending = .refused reason → b.Imposes reason)
    (concluded : conclude settings startStep ending statistics = .ok outcome) :
    outcome.verdict.Excused b := by
  intro reason aborted
  cases ending with
  | reached timeline =>
      cases concluded
      cases aborted
  | exhausted =>
      cases concluded
      cases aborted
  | refused refusal =>
      cases concluded
      cases aborted
      exact imposed reason rfl
  | broken failure => cases concluded
  | narrow => cases concluded

/-- A search is aborted only for a reason that the budget of its meter imposes. -/
theorem excused_of_run (serves : meter.Serves b) {outcome : Outcome}
    (ended : (run schema settings initial goal horizon startStep meter).1 = .ok outcome) :
    outcome.verdict.Excused b := by
  obtain ⟨table, _, _, concluded⟩ := concluded_of_run ended
  exact excused_of_conclude (Machine.run_serves _ _ serves.start).2 concluded

end Search

namespace Branching

variable {workers : Nat} {settings : SearchSettings} {problem : Problem} {b : Budget}

def Branch.Excused (b : Budget) (branch : Branch) : Prop :=
  ∀ outcome, branch.stage = .done (.ok outcome) → outcome.verdict.Excused b

/--
Before a pool is decided, its meter was not cancelled and its branches are
excused; afterwards its answer is.
-/
inductive Pool.Excused (b : Budget) (p : Pool) : Prop where
  | undecided (undecided : p.answer? = none) (serves : p.meter.Serves b)
      (excused : ∀ branch ∈ p.branches, branch.Excused b)
  | decided {answer : Except Fault Verdict} (decided : p.answer? = some answer)
      (excused : ∀ verdict, answer = .ok verdict → verdict.Excused b)

theorem excused_begin (settings : SearchSettings) (problem : Problem) (branch : Branch)
    (meter : Meter) :
    ({ branch with stage := (Stage.begin settings problem branch.start meter).1 } :
      Branch).Excused b := by
  intro outcome done
  simp only [Stage.begin] at done
  split at done
  · cases done
  · split at done <;> cases done

theorem excused_work (branch : Branch) (m : Machine) {meter : Meter} (serves : meter.Serves b) :
    ({ branch with stage := (Stage.work settings problem m meter).1 } : Branch).Excused b := by
  intro outcome done
  simp only [Stage.work] at done
  split at done
  · cases done
  · rename_i ending last halts
    refine Search.excused_of_conclude ?_ (Stage.done.inj done)
    rintro reason rfl
    exact Machine.imposes_of_halt serves halts

namespace Pool

variable {p q : Pool}

theorem excused_initial {meter : Meter} (serves : meter.Serves b) :
    (initial problem meter).Excused b :=
  .undecided rfl serves (fun _ none => nomatch none)

theorem Excused.submit (excused : p.Excused b) (undecided : p.answer? = none) {choice : Choice}
    {rest : List Choice} (advanced : Except Failure State) :
    (p.submit choice rest advanced).Excused b := by
  cases excused with
  | decided decided _ => cases undecided.symm.trans decided
  | undecided _ serves excused =>
      cases advanced with
      | error failure => exact .decided rfl (fun _ fails => nomatch fails)
      | ok s =>
          refine .undecided undecided serves (List.forall_mem_append.mpr ⟨excused, ?_⟩)
          intro branch here
          cases List.mem_singleton.mp here
          exact fun _ done => nomatch done

theorem Excused.replace (excused : p.Excused b) {before after : List Branch} {branch : Branch}
    {stage : Stage} {meter : Meter} (split : p.branches = before ++ branch :: after)
    (keeps : p.meter.Serves b → meter.Serves b ∧ ({ branch with stage } : Branch).Excused b) :
    { p with branches := before ++ { branch with stage } :: after, meter }.Excused b := by
  cases excused with
  | decided decided excused => exact .decided decided excused
  | undecided undecided serves excused =>
      obtain ⟨serves, here⟩ := keeps serves
      exact .undecided undecided serves (forall_mem_replace split excused (fun _ => here))

theorem Excused.take (excused : p.Excused b) (undecided : p.answer? = none) {branch : Branch}
    {rest : List Branch} {result : Except Fault Outcome} (first : p.branches = branch :: rest)
    (done : branch.stage = .done result) :
    (p.take problem branch.choice rest result).Excused b := by
  cases excused with
  | decided decided _ => cases undecided.symm.trans decided
  | undecided _ serves excused =>
      rw [first] at excused
      obtain ⟨here, others⟩ := List.forall_mem_cons.mp excused
      cases result with
      | error fault => exact .decided rfl (fun _ fails => nomatch fails)
      | ok outcome =>
          have given := here outcome done
          obtain ⟨verdict, counts, step⟩ := outcome
          cases verdict with
          | noPlan => exact .undecided undecided serves others
          | aborted reason =>
              refine .decided rfl ?_
              rintro _ ⟨⟩
              exact given
          | success timeline =>
              refine .decided rfl ?_
              rintro _ ⟨⟩ reason ⟨⟩

/-- Each turn keeps a pool excused. -/
theorem Excused.turn (excused : p.Excused b) (turn : Turn workers settings problem p q) :
    q.Excused b := by
  cases turn with
  | submit undecided _ => exact excused.submit undecided _
  | @begin _ _ branch split _ _ =>
      refine excused.replace split (fun serves => ⟨?_, excused_begin settings problem branch _⟩)
      rw [begin_meter]
      exact serves.start
  | @work _ _ branch m split _ =>
      refine excused.replace split (fun serves => ⟨?_, excused_work branch m serves⟩)
      rw [work_meter]
      exact Machine.serves_step _ serves
  | take undecided _ first done => exact excused.take undecided first done
  | finish _ _ _ =>
      refine .decided rfl ?_
      rintro _ ⟨⟩ reason ⟨⟩

theorem excused_of_turns {meter : Meter} (serves : meter.Serves b)
    (turns : Turns workers settings problem (initial problem meter) p) : p.Excused b := by
  induction turns with
  | refl => exact excused_initial serves
  | tail _ turn ih => exact ih.turn turn

end Pool

/-- A search by branches is aborted only for a reason that its budget imposes. -/
theorem excused_of_returnsFrom {first : Meter} (serves : first.Serves b) {outcome : Outcome}
    (returns : ReturnsFrom workers settings problem first (.ok outcome)) :
    outcome.verdict.Excused b := by
  generalize given : Except.ok outcome = result at returns
  cases returns with
  | direct decided => exact Search.excused_of_run serves given.symm
  | refused undecided charged =>
      cases given
      rintro _ ⟨⟩
      exact serves.imposes charged
  | unfit undecided charged fails => cases given
  | @pooled meter p answer undecided charged passes turns ended answers =>
      have granted := serves.charged
      rw [charged] at granted
      cases Pool.excused_of_turns granted turns with
      | undecided open? => cases answers.symm.trans open?
      | @decided answer decided excused =>
          cases answers.symm.trans decided
          cases answer with
          | error fault => cases given
          | ok verdict =>
              cases given
              exact excused verdict rfl

end Branching

/-- Whatever a planner returns was aborted, if it was, for a reason that its budget imposes. -/
theorem Planner.excused_of_returns {planner : Planner} {clock : Clock} {problem : Problem}
    {finding : Finding} (returns : planner.Returns clock problem (.ok finding)) :
    finding.verdict.Excused planner.settings.budget := by
  have serves := Meter.serves_fresh planner.settings.budget clock
  generalize given : Except.ok finding = result at returns
  cases returns with
  | alone single =>
      obtain ⟨outcome, ends, rfl⟩ := Except.exists_of_map_eq_ok given.symm
      exact Search.excused_of_run serves ends
  | together several employs returns =>
      obtain ⟨outcome, rfl, rfl⟩ := Except.exists_of_map_eq_ok given.symm
      exact Branching.excused_of_returnsFrom serves.start returns

end StackingPlanner
