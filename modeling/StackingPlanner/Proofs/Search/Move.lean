import StackingPlanner.Search.Machine

/-!
# What one step of the search machine does

Each step is one of a few moves: a fresh frame is visited and found to satisfy
the goal, to be at the last step or to be a known dead end, or else its first
candidate is tried; of a frame that was visited before, the next candidate is
tried, or the frame is given up.  Whatever every move keeps holds when the
machine halts.
-/

namespace StackingPlanner

/-- The moves of the search machine, with all that they change. -/
inductive Move (task : SearchTask) : Machine → Progress → Prop where
  /-- No frame is left. -/
  | exhaust {table : Option StateTable} {meter : Meter} {statistics : Statistics} :
      Move task ⟨[], table, meter, statistics⟩
        (.halted .exhausted ⟨[], table, meter, statistics⟩)
  /-- The visit of a fresh frame is refused. -/
  | refuse {f : Frame} {below : List Frame} {table : Option StateTable} {meter used : Meter}
      {statistics : Statistics} {reason : Refusal} (fresh : f.pending = none)
      (charged : meter.charge = (some reason, used)) :
      Move task ⟨f :: below, table, meter, statistics⟩
        (.halted (.refused reason) ⟨f :: below, table, used, statistics⟩)
  /-- The goal holds in a fresh frame. -/
  | reach {f : Frame} {below : List Frame} {table : Option StateTable} {meter used : Meter}
      {statistics : Statistics} (fresh : f.pending = none) (charged : meter.charge = (none, used))
      (holds : f.state.satisfies task.goal.toList = true) :
      Move task ⟨f :: below, table, meter, statistics⟩
        (.halted
          (.reached
            (Machine.unwind f.state (List.replicate f.remaining (none, f.state)) below))
          ⟨f :: below, table, used,
            { statistics.visit (f.step task) with
              transitions := (statistics.visit (f.step task)).transitions + f.remaining }⟩)
  /-- A fresh frame at the last step fails. -/
  | fail {f : Frame} {below : List Frame} {table noted : Option StateTable} {meter used : Meter}
      {statistics : Statistics} (fresh : f.pending = none) (charged : meter.charge = (none, used))
      (unmet : f.state.satisfies task.goal.toList = false) (last : f.remaining = 0)
      (remembered : Machine.remember? table f = some noted) :
      Move task ⟨f :: below, table, meter, statistics⟩
        (.going ⟨below, noted, used, statistics.visit (f.step task)⟩)
  /-- A fresh frame is known to fail. -/
  | prune {f : Frame} {below : List Frame} {table touched : Option StateTable}
      {meter used : Meter} {statistics : Statistics} (fresh : f.pending = none)
      (charged : meter.charge = (none, used))
      (unmet : f.state.satisfies task.goal.toList = false) (remains : f.remaining ≠ 0)
      (known : Machine.lookUp table f = (true, touched)) :
      Move task ⟨f :: below, table, meter, statistics⟩
        (.going ⟨below, touched, used,
          { statistics.visit (f.step task) with
            deadEndHits := (statistics.visit (f.step task)).deadEndHits + 1 }⟩)
  /-- The first candidate of a fresh frame is tried. -/
  | descend {f : Frame} {below : List Frame} {table touched : Option StateTable}
      {meter used : Meter} {statistics : Statistics} {choice : Choice} {untried : List Choice}
      {successor : State} (fresh : f.pending = none) (charged : meter.charge = (none, used))
      (unmet : f.state.satisfies task.goal.toList = false) (remains : f.remaining ≠ 0)
      (unknown : Machine.lookUp table f = (false, touched))
      (candidates : task.schema.candidates f.state = choice :: untried)
      (advanced : task.schema.advance task.checked f.state choice (.whole (f.step task)) =
        .ok successor) :
      Move task ⟨f :: below, table, meter, statistics⟩
        (.going ⟨Frame.fresh (f.remaining - 1) successor ::
            ⟨f.remaining, f.state, choice, some untried⟩ :: below, touched, used,
          { statistics.visit (f.step task) with
            transitions := (statistics.visit (f.step task)).transitions + 1 }⟩)
  /-- The next candidate of a frame is tried. -/
  | retry {f : Frame} {below : List Frame} {table : Option StateTable} {meter : Meter}
      {statistics : Statistics} {choice : Choice} {untried : List Choice} {successor : State}
      (pending : f.pending = some (choice :: untried))
      (advanced : task.schema.advance task.checked f.state choice (.whole (f.step task)) =
        .ok successor) :
      Move task ⟨f :: below, table, meter, statistics⟩
        (.going ⟨Frame.fresh (f.remaining - 1) successor ::
            ⟨f.remaining, f.state, choice, some untried⟩ :: below, table, meter,
          { statistics with transitions := statistics.transitions + 1 }⟩)
  /-- A frame without further candidates is given up. -/
  | close {f : Frame} {below : List Frame} {table noted : Option StateTable} {meter : Meter}
      {statistics : Statistics} (pending : f.pending = some [])
      (remembered : Machine.remember? table f = some noted) :
      Move task ⟨f :: below, table, meter, statistics⟩
        (.going ⟨below, noted, meter, { statistics with backtracks := statistics.backtracks + 1 }⟩)
  /-- A transition is refused by its checks. -/
  | breach {f : Frame} {below : List Frame} {table : Option StateTable} {meter : Meter}
      {statistics : Statistics} {choice : Choice} {failure : Failure} {halted : Machine}
      (tried : choice ∈ task.schema.candidates f.state ∨
        ∃ untried, f.pending = some (choice :: untried))
      (metered : halted.meter = meter ∨ halted.meter = meter.charge.2)
      (refused : task.schema.advance task.checked f.state choice (.whole (f.step task)) =
        .error failure) :
      Move task ⟨f :: below, table, meter, statistics⟩ (.halted (.broken failure) halted)
  /-- The table has no room for a frame that failed. -/
  | lack {f : Frame} {below : List Frame} {table : Option StateTable} {meter : Meter}
      {statistics : Statistics} {halted : Machine}
      (metered : halted.meter = meter ∨ halted.meter = meter.charge.2)
      (full : Machine.remember? table f = none) :
      Move task ⟨f :: below, table, meter, statistics⟩ (.halted .narrow halted)

def Progress.machine : Progress → Machine
  | going m => m
  | halted _ m => m

theorem Move.meter_eq {task : SearchTask} {m : Machine} {progress : Progress}
    (move : Move task m progress) :
    progress.machine.meter = m.meter ∨ progress.machine.meter = m.meter.charge.2 := by
  cases move with
  | exhaust => exact .inl rfl
  | refuse _ charged => exact .inr (congrArg Prod.snd charged).symm
  | reach _ charged _ => exact .inr (congrArg Prod.snd charged).symm
  | fail _ charged _ _ _ => exact .inr (congrArg Prod.snd charged).symm
  | prune _ charged _ _ _ => exact .inr (congrArg Prod.snd charged).symm
  | descend _ charged _ _ _ _ _ => exact .inr (congrArg Prod.snd charged).symm
  | retry _ _ => exact .inl rfl
  | close _ _ => exact .inl rfl
  | breach _ metered _ => exact metered
  | lack metered _ => exact metered

namespace Machine

variable {task : SearchTask}

/-- The only move of a machine without frames is to halt; every other step is a move too. -/
theorem move_step (task : SearchTask) (m : Machine) : Move task m (step task m) := by
  obtain ⟨frames, table, meter, statistics⟩ := m
  cases frames with
  | nil => exact .exhaust
  | cons f below =>
      cases pending : f.pending with
      | none =>
          simp only [step, pending, visit]
          cases charged : meter.charge with
          | mk refusal used =>
              cases refusal with
              | some reason => exact .refuse pending charged
              | none =>
                  cases holds : f.state.satisfies task.goal.toList with
                  | true => exact .reach pending charged holds
                  | false =>
                      simp only [Bool.false_eq_true, if_false, expand]
                      split
                      · rename_i last
                        unfold giveUp
                        split
                        · rename_i remembered
                          exact .fail pending charged holds last remembered
                        · rename_i full
                          exact .lack (.inr (congrArg Prod.snd charged).symm) full
                      · rename_i remains
                        split
                        · rename_i known
                          exact .prune pending charged holds remains known
                        · rename_i unknown
                          split
                          · rename_i none
                            exact absurd none (by simp [Schema.candidates])
                          · rename_i choice untried candidates
                            simp only [tryChoice]
                            split
                            · rename_i advanced
                              exact .descend pending charged holds remains unknown candidates
                                advanced
                            · rename_i refused
                              have candidate : choice ∈ task.schema.candidates f.state := by
                                rw [candidates]
                                exact List.mem_cons_self
                              exact .breach (.inl candidate) (.inr (congrArg Prod.snd charged).symm)
                                refused
      | some untried =>
          cases untried with
          | nil =>
              simp only [step, pending, giveUp]
              split
              · rename_i remembered
                exact .close pending remembered
              · rename_i full
                exact .lack (.inl rfl) full
          | cons choice untried =>
              simp only [step, pending, tryChoice]
              split
              · rename_i advanced
                exact .retry pending advanced
              · rename_i refused
                exact .breach (.inr ⟨untried, pending⟩) (.inl rfl) refused

theorem move_of_step {m n : Machine} (next : step task m = .going n) :
    Move task m (.going n) := next ▸ move_step task m

theorem move_of_halt {m n : Machine} {ending : Ending} (next : step task m = .halted ending n) :
    Move task m (.halted ending n) := next ▸ move_step task m

/-- What every step keeps holds before the last step of a run. -/
theorem run_keeps {keeps : Machine → Prop}
    (preserved : ∀ m n, keeps m → step task m = .going n → keeps n) {m : Machine}
    (holds : keeps m) :
    ∃ last, keeps last ∧ step task last = .halted (run task m).1 (run task m).2 := by
  induction m using run.induct task with
  | case1 m n next ih =>
      rw [run]
      split
      · rename_i other same
        cases next.symm.trans same
        exact ih (preserved m n holds next)
      · rename_i halted
        cases next.symm.trans halted
  | case2 m ending n next =>
      refine ⟨m, holds, ?_⟩
      rw [run]
      split
      · rename_i going
        cases next.symm.trans going
      · rename_i same
        exact same

end Machine

end StackingPlanner
