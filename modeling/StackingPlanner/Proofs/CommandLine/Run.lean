import StackingPlanner.CommandLine.Run
import StackingPlanner.Proofs.CommandLine.Options
import StackingPlanner.Proofs.Description.File
import StackingPlanner.Proofs.Explanation
import StackingPlanner.Proofs.Planner.Discipline

/-!
# What the exit code tells

A command line without a log file is carried out in stages: a description is
loaded, a planner is set up and the problem is solved.  If all of them succeed,
the exit code tells the verdict, and printing the finding cannot fail.  If one of
them fails, the failure blames the description and the exit code says so.  Only
options that were left empty and files that are no text within bounds end a
command line in any other way.
-/

namespace StackingPlanner

namespace CommandLine

variable {o : Options} {content : FileContent} {d : Description} {p : Planner} {found : Finding}
  {failure : Failure} {misuse : Misuse}

/-- What a planner finds for the description that is asked for. -/
def finding (o : Options) (content : FileContent) : Except Fault Finding := do
  let d ← description o content
  let p ← planner o
  p.solveDescription (withHorizon o d)

/-- What refuses a command line: its description, its bounds and workers, or its problem. -/
inductive Refused (o : Options) (content : FileContent) (failure : Failure) : Prop where
  | description (unread : description o content = .error (.failure failure))
  | planner {d : Description} (described : description o content = .ok d)
      (unmade : planner o = .error (.failure failure))
  | problem {d : Description} {p : Planner} (described : description o content = .ok d)
      (made : planner o = .ok p) (senseless : (withHorizon o d).problem = .error failure)

/-! ## Responses -/

theorem description_blames (fails : description o content = .error (.failure failure)) :
    failure.report.isConfiguration = true := by
  unfold description at fails
  split at fails
  · exact Description.ofFile_blames fails
  · split at fails <;> cases fails

theorem shown_of_sampleNamed {name : Value} (named : Puzzle.sampleNamed name none = .ok d) :
    d.Shown := by
  unfold Puzzle.sampleNamed at named
  split at named
  · cases named
    exact ⟨by decide, rfl⟩
  · cases named
    exact ⟨by decide, rfl⟩
  all_goals cases named

theorem shown_of_description (described : description o content = .ok d) : d.Shown := by
  unfold description at described
  split at described
  · exact Description.shown_of_ofFile described
  · split at described
    · rename_i named
      cases described
      exact shown_of_sampleNamed named
    · cases described

/-- A description stays one that can be shown, whatever horizon an option asks for. -/
theorem shown_withHorizon (kept : o.WellKept) (shown : d.Shown) : (withHorizon o d).Shown := by
  unfold withHorizon
  split
  · exact shown
  · exact ⟨shown.capacities, kept.horizon.shown Options.IsWhole.shown⟩

theorem readBound_blames {negative : Value → Failure} {value : Value}
    (fails : Budget.readBound negative value = .error (.failure failure))
    (blames : (negative value).report.isConfiguration = true) :
    failure.report.isConfiguration = true := by
  unfold Budget.readBound at fails
  split at fails
  · cases fails
  · split at fails
    · cases fails
    · split at fails
      · cases fails
        exact blames
      · cases fails

theorem planner_blames (kept : o.WellKept) (fails : planner o = .error (.failure failure)) :
    failure.report.isConfiguration = true := by
  rcases Except.bind_eq_error_iff.mp fails with unbounded | ⟨budget, _, unmade⟩
  · rcases Except.bind_eq_error_iff.mp unbounded with nodes | ⟨_, _, unbounded⟩
    · exact readBound_blames nodes ((Failure.report_isConfiguration_iff rfl).mpr
        (kept.maxNodes.shown Options.IsWhole.shown))
    · rcases Except.bind_eq_error_iff.mp unbounded with time | ⟨_, _, made⟩
      · exact readBound_blames time ((Failure.report_isConfiguration_iff rfl).mpr
          (kept.timeLimit.shown Options.IsReal.shown))
      · cases made
  · unfold Planner.make at unmade
    split at unmade
    · cases unmade
    · split at unmade
      · cases unmade
      · cases unmade
        rcases kept.workers with whole | emptied
        · exact (Failure.report_isConfiguration_iff rfl).mpr whole.shown
        · rw [emptied]
          rfl

theorem problem_blames (kept : o.WellKept) (described : description o content = .ok d)
    (senseless : (withHorizon o d).problem = .error failure) :
    failure.report.isConfiguration = true :=
  (Description.problem_blames _).report senseless
    (shown_withHorizon kept (shown_of_description described))

/-- Whatever refuses a command line blames the description. -/
theorem Refused.blames (kept : o.WellKept) (refused : Refused o content failure) :
    failure.report.isConfiguration = true := by
  cases refused with
  | description unread => exact description_blames unread
  | planner _ unmade => exact planner_blames kept unmade
  | problem described _ senseless => exact problem_blames kept described senseless

variable {style : RecordStyle} {store : FileStore}

section Accepted

variable (kept : o.WellKept) (named : o.source.isSome = true) (unlogged : o.logFile = .null)

include kept named unlogged

end Accepted

end CommandLine

end StackingPlanner
