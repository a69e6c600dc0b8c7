import StackingPlanner.Proofs.Search.Threshold

/-!
# The counts of a search balance

Every transition of a search leads to a frame that is visited, so apart from the
first frame and one that waits for its visit there are as many visits as
transitions.  A frame that was visited is still open, or was given up, or was
known to fail, or was at the last step without meeting the goal; and a search
only gives something up after it has come to the last step.  As nothing is
tried first, no goal is met before the last step unless it holds at once.
-/

namespace StackingPlanner

namespace Frame

variable {task : SearchTask} {start : State} {count : Nat}

theorem step_le_horizon (task : SearchTask) (f : Frame) : f.step task ≤ task.horizon := by
  rw [step]
  omega

/--
The choice of a frame meets the goal only in the last step: with another step
left, doing nothing first would have led to the goal as well, and that has been
tried before any other choice.
-/
theorem Tries.last_of_goal {f : Frame} {untried : List Choice} (tries : f.Tries task untried)
    (holds : (f.state.after f.choice).satisfies task.goal.toList = true) :
    f.remaining - 1 = 0 := by
  obtain ⟨failed, candidates, fails⟩ := tries.earlier
  cases failed with
  | nil =>
      have idle : none = f.choice := (List.cons.inj candidates).1
      rw [← idle, State.after_none, tries.unmet] at holds
      cases holds
  | cons first failed =>
      have idle : none = first := (List.cons.inj candidates).1
      have idleFails := fails first List.mem_cons_self
      rw [← idle, State.after_none] at idleFails
      apply Classical.byContradiction
      intro more
      obtain ⟨steps, same⟩ := Nat.exists_eq_succ_of_ne_zero more
      rw [same] at idleFails
      exact Schema.leftmost?_eq_none_iff.mp idleFails
        (Schema.Reaches.succ_iff.mpr ⟨f.choice, tries.allowed, .here holds steps⟩)

theorem LeadTo.not_visitsNext {s : State} {steps : Nat} {below : List Frame}
    (path : LeadTo task start count s steps below) (table : Option StateTable) (meter : Meter)
    (statistics : Statistics) : Machine.visitsNext ⟨below, table, meter, statistics⟩ = false := by
  cases path with
  | start => rfl
  | along tries _ _ _ => simp [Machine.visitsNext, tries.pending]

/-- If the goal does not hold in the start, a path leads to it only in the last step. -/
theorem LeadTo.last_of_goal {s : State} {steps : Nat} {below : List Frame}
    (path : LeadTo task start count s steps below)
    (unmet : start.satisfies task.goal.toList = false)
    (holds : s.satisfies task.goal.toList = true) : steps = 0 := by
  cases path with
  | start => cases holds.symm.trans unmet
  | along tries _ reached fewer =>
      rw [reached] at holds
      exact fewer.trans (tries.last_of_goal holds)

end Frame

namespace Machine

/-- A search that has not failed anywhere yet: its top frame is fresh and its table empty. -/
structure Plunges (m : Machine) : Prop where
  fresh : m.visitsNext = true
  empty : ∀ t, m.table = some t → t.entries = ∅

/--
The visits of which it is known what came of them: the frame is still open, was
given up after all of its choices, or was known to fail.
-/
def accounted (m : Machine) : Int :=
  m.frames.countP (·.pending.isSome) + m.statistics.backtracks + m.statistics.deadEndHits

/-- The invariant of the counts of a search. -/
structure Balanced (task : SearchTask) (start : State) (count : Nat) (m : Machine) : Prop where
  sound : m.Sound task start count
  /-- Each frame but the first came from a transition, and at most the top one was not visited. -/
  transitions : m.statistics.nodes + m.visitsNext.toNat = m.statistics.transitions + 1
  within : m.statistics.maxStep ≤ task.horizon
  /-- Once something has failed, a frame at the last step has, which is not accounted for. -/
  depth : m.Plunges ∧ m.accounted ≤ m.statistics.nodes ∨
    m.statistics.maxStep = task.horizon ∧ m.accounted + 1 ≤ m.statistics.nodes

section Balanced

variable {task : SearchTask} {start : State} {count : Nat} {m n : Machine} {f : Frame}
  {below : List Frame} {table noted : Option StateTable} {meter used : Meter}
  {statistics counted : Statistics}

theorem Plunges.lookUp (plunges : Plunges ⟨f :: below, table, meter, statistics⟩) :
    (Machine.lookUp table f).1 = false ∧
      ∀ t, (Machine.lookUp table f).2 = some t → t.entries = ∅ := by
  cases table with
  | none => exact ⟨rfl, nofun⟩
  | some t => simp [Machine.lookUp, DeadEndTable.isDeadEnd, plunges.empty t rfl]

theorem Balanced.accounted_le (balanced : m.Balanced task start count) :
    m.accounted ≤ m.statistics.nodes := by
  rcases balanced.depth with ⟨-, counted⟩ | ⟨-, counted⟩ <;> omega

theorem Balanced.deep (balanced : m.Balanced task start count) (not : ¬ m.Plunges) :
    m.statistics.maxStep = task.horizon ∧ m.accounted + 1 ≤ m.statistics.nodes :=
  balanced.depth.resolve_left (fun plunge => not plunge.1)

theorem Balanced.pop
    (balanced : Balanced task start count ⟨f :: below, table, meter, statistics⟩)
    (sound : Sound task start count ⟨below, noted, used, counted⟩)
    (nodes : counted.nodes = statistics.nodes + f.pending.isNone.toNat)
    (transitions : counted.transitions = statistics.transitions)
    (deepest : counted.maxStep = task.horizon)
    (settled : accounted ⟨below, noted, used, counted⟩ + 1 ≤ counted.nodes) :
    Balanced task start count ⟨below, noted, used, counted⟩ where
  sound := sound
  transitions := by
    have before := balanced.transitions
    have closed := balanced.sound.path.not_visitsNext noted used counted
    rw [closed]
    simp only [visitsNext, Bool.toNat_false] at before ⊢
    omega
  within := Int.le_of_eq deepest
  depth := .inr ⟨deepest, settled⟩

theorem Balanced.push {choice : Choice} {untried : List Choice} {remaining : Nat} {s : State}
    (balanced : Balanced task start count ⟨f :: below, table, meter, statistics⟩)
    (sound : Sound task start count
      ⟨Frame.fresh remaining s :: ⟨f.remaining, f.state, choice, some untried⟩ :: below, noted,
        used, counted⟩)
    (nodes : counted.nodes = statistics.nodes + f.pending.isNone.toNat)
    (transitions : counted.transitions = statistics.transitions + 1)
    (backtracks : counted.backtracks = statistics.backtracks)
    (deadEndHits : counted.deadEndHits = statistics.deadEndHits)
    (deeper : statistics.maxStep ≤ counted.maxStep) (within : counted.maxStep ≤ task.horizon)
    (empty : Plunges ⟨f :: below, table, meter, statistics⟩ →
      ∀ t, noted = some t → t.entries = ∅) :
    Balanced task start count
      ⟨Frame.fresh remaining s :: ⟨f.remaining, f.state, choice, some untried⟩ :: below, noted,
        used, counted⟩ where
  sound := sound
  transitions := by
    have before := balanced.transitions
    simp only [visitsNext, Frame.fresh, Option.isNone_none, Bool.toNat_true] at before ⊢
    omega
  within := within
  depth := by
    have accounted : accounted ⟨Frame.fresh remaining s ::
          ⟨f.remaining, f.state, choice, some untried⟩ :: below, noted, used, counted⟩ =
        accounted ⟨f :: below, table, meter, statistics⟩ + f.pending.isNone.toNat := by
      simp only [Machine.accounted, List.countP_cons, Frame.fresh, backtracks, deadEndHits]
      cases f.pending with
      | none =>
          simp
          omega
      | some _ => simp
    rw [accounted, nodes]
    rcases balanced.depth with ⟨plunges, enough⟩ | ⟨deepest, enough⟩
    · exact .inl ⟨⟨rfl, empty plunges⟩, Int.add_le_add_right enough _⟩
    · refine .inr ⟨Int.le_antisymm within (deepest ▸ deeper), ?_⟩
      dsimp only at enough
      omega

/-- Each move that does not halt the machine keeps its counts balanced. -/
theorem Balanced.next (balanced : m.Balanced task start count) (move : Move task m (.going n)) :
    n.Balanced task start count := by
  have sound := balanced.sound.next move
  have accounted := balanced.accounted_le
  have within := balanced.within
  have deep := balanced.deep
  cases move with
  | @fail f below table noted meter used statistics fresh charged unmet last remembered =>
      have deepest : f.step task = task.horizon := by
        rw [Frame.step, last]
        omega
      refine balanced.pop sound ?_ rfl ?_ ?_
      · simp [Counts.visit, fresh]
      · rw [Counts.visit, deepest]
        exact Int.max_eq_right within
      · simp only [Machine.accounted, Counts.visit, List.countP_cons, fresh] at accounted ⊢
        omega
  | @prune f below table touched meter used statistics fresh charged unmet remains known =>
      obtain ⟨deepest, counted⟩ := deep (fun plunges => by
        have unknown := plunges.lookUp.1
        rw [known] at unknown
        cases unknown)
      refine balanced.pop sound ?_ rfl ?_ ?_
      · simp [Counts.visit, fresh]
      · rw [Counts.visit, deepest]
        exact Int.max_eq_left (Frame.step_le_horizon task f)
      · simp only [Machine.accounted, Counts.visit, List.countP_cons, fresh] at counted ⊢
        omega
  | @descend f below table touched meter used statistics choice untried successor fresh charged
      unmet remains unknown candidates advanced =>
      refine balanced.push sound ?_ rfl rfl rfl ?_ ?_ ?_
      · simp [Counts.visit, fresh]
      · exact Int.le_max_left _ _
      · exact Int.max_le.mpr ⟨within, Frame.step_le_horizon task f⟩
      · intro plunges
        have empty := plunges.lookUp.2
        rwa [unknown] at empty
  | @retry f below table meter statistics choice untried successor pending advanced =>
      exact balanced.push sound (by simp [pending]) rfl rfl rfl (Int.le_refl _) within
        (fun plunges => plunges.empty)
  | @close f below table noted meter statistics pending remembered =>
      obtain ⟨deepest, counted⟩ := deep (fun plunges => by
        have fresh := plunges.fresh
        simp [visitsNext, pending] at fresh)
      refine balanced.pop sound (by simp [pending]) rfl deepest ?_
      simp only [Machine.accounted, List.countP_cons, pending] at counted ⊢
      simp at counted
      omega

theorem balanced_initial (empty : ∀ t, table = some t → t.entries = ∅ ∧ t.isNarrow = false)
    (meter : Meter) : (initial count start table meter).Balanced task start count where
  sound := sound_initial (SearchTask.trusts_of_empty empty) meter
  transitions := rfl
  within := Int.natCast_nonneg task.horizon
  depth := .inl ⟨⟨rfl, fun t given => (empty t given).1⟩, Int.le_refl 0⟩

def Tally (task : SearchTask) (start : State) (statistics : Statistics) : Ending → Prop
  | .exhausted =>
      statistics.nodes = statistics.transitions + 1 ∧ statistics.maxStep = task.horizon ∧
        statistics.backtracks + statistics.deadEndHits + 1 ≤ statistics.nodes
  | .refused _ => statistics.nodes = statistics.transitions
  | .reached _ =>
      start.satisfies task.goal.toList = false →
        statistics.transitions = statistics.nodes - 1 ∧ statistics.maxStep = task.horizon
  | .broken _ => True
  | .narrow => True

theorem Balanced.halt {last : Machine} {ending : Ending} (balanced : m.Balanced task start count)
    (halts : step task m = .halted ending last) : Tally task start last.statistics ending := by
  have transitions := balanced.transitions
  have within := balanced.within
  cases move_of_halt halts with
  | exhaust =>
      obtain ⟨deepest, enough⟩ := balanced.deep (fun plunges => nomatch plunges.fresh)
      simp only [accounted, List.countP_nil] at enough
      simp only [visitsNext, Bool.toNat_false] at transitions
      dsimp only [Tally] at deepest ⊢
      omega
  | @refuse f below table meter used statistics reason fresh charged =>
      simp only [visitsNext, fresh, Option.isNone_none, Bool.toNat_true] at transitions
      dsimp only [Tally]
      omega
  | @reach f below table meter used statistics fresh charged holds =>
      intro unmet
      have last : f.remaining = 0 := balanced.sound.path.last_of_goal unmet holds
      simp only [visitsNext, fresh, Option.isNone_none, Bool.toNat_true] at transitions
      dsimp only at within
      simp only [Counts.visit, Frame.step, last]
      omega
  | breach | lack => trivial

theorem step_initial_of_goal (task : SearchTask) (count : Nat) (table : Option StateTable)
    (meter : Meter) (holds : start.satisfies task.goal.toList = true) :
    ∃ ending last, step task (initial count start table meter) = .halted ending last ∧
      ∀ timeline, ending = .reached timeline →
        last.statistics.nodes = 1 ∧ last.statistics.backtracks = 0 ∧
          last.statistics.transitions = count ∧
          last.statistics.maxStep = max 0 ((task.horizon : Int) - count) := by
  cases charged : meter.charge with
  | mk refusal used =>
      cases refusal with
      | some reason =>
          refine ⟨.refused reason, initial count start table used, ?_, nofun⟩
          simp [step, initial, Frame.fresh, visit, charged]
      | none =>
          simp [step, initial, Frame.fresh, visit, charged, holds, settle, Counts.visit,
            Counts.zero, Frame.step]

end Balanced

section Untabled

variable {task : SearchTask} {m n : Machine}

theorem untabled_next (move : Move task m (.going n)) (untabled : m.table = none) :
    n.table = none ∧ n.statistics.deadEndHits = m.statistics.deadEndHits := by
  cases move with
  | fail _ _ _ _ remembered | close _ remembered =>
      cases untabled
      cases remembered
      exact ⟨rfl, rfl⟩
  | prune _ _ _ _ known =>
      cases untabled
      cases known
  | descend _ _ _ _ unknown _ _ =>
      cases untabled
      cases unknown
      exact ⟨rfl, rfl⟩
  | retry => exact ⟨untabled, rfl⟩

theorem untabled_run (untabled : m.table = none)
    (sound : ∀ failure, (run task m).1 ≠ .broken failure) (roomy : (run task m).1 ≠ .narrow) :
    (run task m).2.statistics.deadEndHits = m.statistics.deadEndHits := by
  have preserved : ∀ k n : Machine,
      k.table = none ∧ k.statistics.deadEndHits = m.statistics.deadEndHits →
        step task k = .going n →
          n.table = none ∧ n.statistics.deadEndHits = m.statistics.deadEndHits := by
    rintro k n ⟨untabled, same⟩ next
    obtain ⟨after, hits⟩ := untabled_next (move_of_step next) untabled
    exact ⟨after, hits.trans same⟩
  obtain ⟨last, ⟨-, same⟩, halts⟩ := run_keeps preserved ⟨untabled, rfl⟩
  generalize run task m = ended at halts sound roomy ⊢
  obtain ⟨ending, final⟩ := ended
  cases move_of_halt halts with
  | exhaust | refuse _ _ | reach _ _ _ => exact same
  | breach _ _ _ => exact absurd rfl (sound _)
  | lack _ _ => exact absurd rfl roomy

end Untabled

/-! ## Tables without room -/

/-- A search whose table has no room for anything, as long as it has done nothing. -/
structure Stays (start : State) (m : Machine) : Prop where
  narrow : ∃ t, m.table = some t ∧ t.entries = ∅ ∧ t.isNarrow = true
  top : ∃ f below, m.frames = f :: below ∧ f.pending = none ∧ f.state = start
  counts : m.statistics.nodes = m.statistics.transitions

section Stays

variable {task : SearchTask} {start : State} {count : Nat} {m n : Machine}

/-- Whatever fails first is not remembered, so until then the search does nothing. -/
theorem Stays.next (stays : m.Stays start) (move : Move task m (.going n)) : n.Stays start := by
  obtain ⟨t, tabled, empty, narrow⟩ := stays.narrow
  obtain ⟨f, below, frames, fresh, here⟩ := stays.top
  have counts := stays.counts
  cases move with
  | fail _ _ _ _ remembered =>
      cases tabled
      simp [remember?, DeadEndTable.record?, empty, narrow] at remembered
  | prune _ _ _ _ known =>
      cases tabled
      simp [lookUp, DeadEndTable.isDeadEnd, empty] at known
  | descend _ _ _ _ unknown candidates advanced =>
      cases tabled
      cases frames
      have idle : none = _ := (List.cons.inj candidates).1
      rw [← idle] at advanced
      simp only [lookUp, DeadEndTable.isDeadEnd, empty, Std.HashMap.getElem?_empty,
        Prod.mk.injEq, true_and] at unknown
      subst unknown
      have same := (Schema.eq_after_of_advance advanced).trans here
      exact ⟨⟨_, rfl, rfl, narrow⟩, ⟨_, _, rfl, rfl, same⟩, congrArg (· + 1) counts⟩
  | retry pending _ | close pending _ =>
      cases frames
      cases fresh.symm.trans pending

theorem Stays.halt {last : Machine} {ending : Ending} (stays : m.Stays start)
    (halts : step task m = .halted ending last) : Tally task start last.statistics ending := by
  obtain ⟨f, below, frames, fresh, here⟩ := stays.top
  cases move_of_halt halts with
  | exhaust => cases frames
  | refuse => exact stays.counts
  | reach _ _ holds =>
      cases frames
      intro unmet
      rw [here, unmet] at holds
      cases holds
  | breach | lack => trivial

/-- However a search ends, its counts are as its ending says. -/
theorem tally_run (task : SearchTask) (start : State) (count : Nat) {table : Option StateTable}
    (empty : ∀ t, table = some t → t.entries = ∅) (meter : Meter) :
    Tally task start (run task (initial count start table meter)).2.statistics
      (run task (initial count start table meter)).1 := by
  by_cases roomy : ∀ t, table = some t → t.isNarrow = false
  · have balanced : (initial count start table meter).Balanced task start count :=
      balanced_initial (fun t given => ⟨empty t given, roomy t given⟩) meter
    obtain ⟨last, balanced, halts⟩ :=
      run_keeps (fun _ _ balanced next => Balanced.next balanced (move_of_step next)) balanced
    exact balanced.halt halts
  · obtain ⟨t, given, narrow⟩ : ∃ t, table = some t ∧ t.isNarrow = true := by
      simpa using roomy
    have stays : (initial count start table meter).Stays start :=
      ⟨⟨t, given, empty t given, narrow⟩, ⟨_, _, rfl, rfl, rfl⟩, rfl⟩
    obtain ⟨last, stays, halts⟩ :=
      run_keeps (fun _ _ stays next => Stays.next stays (move_of_step next)) stays
    exact stays.halt halts

end Stays

end Machine

/--
The counts of the outcome of a search balance.  They depend on whether its
table is used, on whether the goal holds at once, and on its first and last step.
-/
structure Outcome.Balances (usesTable immediate : Bool) (startStep horizon : Int) (o : Outcome) :
    Prop where
  /-- Without a plan everything was tried, down to the last step, where something failed. -/
  noPlan : o.verdict = .noPlan →
    o.statistics.nodes = o.statistics.transitions + 1 ∧ o.statistics.maxStep = horizon ∧
      o.statistics.backtracks + o.statistics.deadEndHits + 1 ≤ o.statistics.nodes
  /-- A refused visit is that of the last transition, or the first one. -/
  aborted : ∀ reason, o.verdict = .aborted reason →
    o.statistics.nodes = o.statistics.transitions
  /-- A goal that does not hold at once is met in the last step. -/
  success : ∀ timeline, o.verdict = .success timeline → immediate = false →
    o.statistics.transitions = o.statistics.nodes - 1 ∧ o.statistics.maxStep = horizon
  /-- Where the goal holds at once, the search visits one frame and stays there. -/
  immediate : ∀ timeline, o.verdict = .success timeline → immediate = true →
    o.statistics.nodes = 1 ∧ o.statistics.backtracks = 0 ∧
      o.statistics.transitions = horizon - startStep ∧ o.statistics.maxStep = startStep
  untabled : usesTable = false → o.statistics.deadEndHits = 0

section Balances

variable {usesTable immediate : Bool} {startStep horizon : Int} {o : Outcome}

/-- Unless the goal holds at once, a search that is not aborted sees the last step. -/
theorem Outcome.Balances.maxStep_eq (balances : o.Balances usesTable false startStep horizon)
    (whole : ∀ reason, o.verdict ≠ .aborted reason) : o.statistics.maxStep = horizon := by
  cases verdict : o.verdict with
  | success timeline => exact (balances.success timeline verdict rfl).2
  | noPlan => exact (balances.noPlan verdict).2.1
  | aborted reason => exact absurd verdict (whole reason)

theorem Outcome.Balances.maxStep_le (balances : o.Balances usesTable immediate startStep horizon)
    (order : startStep ≤ horizon) (whole : ∀ reason, o.verdict ≠ .aborted reason) :
    o.statistics.maxStep ≤ horizon := by
  cases immediate with
  | false => exact Int.le_of_eq (balances.maxStep_eq whole)
  | true =>
      cases verdict : o.verdict with
      | success timeline =>
          rw [(balances.immediate timeline verdict rfl).2.2.2]
          exact order
      | noPlan => exact Int.le_of_eq (balances.noPlan verdict).2.1
      | aborted reason => exact absurd verdict (whole reason)

end Balances

namespace SearchSettings

theorem entries_of_table (settings : SearchSettings) {t : StateTable}
    (made : settings.table = .ok (some t)) : t.entries = ∅ := by
  rcases settings.table_cases with ⟨misuse, refused⟩ | ⟨table, other, new⟩ | ⟨u, other, new, -⟩
  · cases made.symm.trans refused
  · cases made.symm.trans other
    exact (new t rfl).1
  · cases made.symm.trans other
    exact new

theorem table_of_unused (settings : SearchSettings) (unused : settings.usesTable = false)
    {table : Option StateTable} (made : settings.table = .ok table) : table = none := by
  rw [SearchSettings.table, unused] at made
  exact (Except.ok.inj made).symm

theorem roomy_of_unused (settings : SearchSettings) (unused : settings.usesTable = false) :
    settings.Roomy := by
  refine HasRoom.roomy (fun uses => ?_)
  rw [unused] at uses
  cases uses

end SearchSettings

namespace Search

variable {schema : Schema} {settings : SearchSettings} {initial : State}
  {goal : OrderedSet Literal} {horizon startStep : Int} {meter : Meter}

theorem inOrder_of_run {outcome : Outcome}
    (ended : (run schema settings initial goal horizon startStep meter).1 = .ok outcome) :
    1 ≤ startStep ∧ startStep ≤ horizon := by
  by_cases order : startStep < 1 ∨ horizon < startStep
  · rw [run, if_pos order] at ended
    cases ended
  · omega

theorem deadEndHits_of_run {outcome : Outcome}
    (ended : (run schema settings initial goal horizon startStep meter).1 = .ok outcome)
    (unused : settings.usesTable = false) : outcome.statistics.deadEndHits = 0 := by
  obtain ⟨table, made, -, concluded⟩ := concluded_of_run ended
  obtain rfl : table = none := settings.table_of_unused unused made
  rw [statistics_of_conclude concluded]
  refine Machine.untabled_run rfl ?_ ?_
  · intro failure broken
    rw [broken] at concluded
    cases concluded
  · intro narrow
    rw [narrow] at concluded
    cases concluded

theorem counts_of_immediate {outcome : Outcome}
    (ended : (run schema settings initial goal horizon startStep meter).1 = .ok outcome)
    (holds : initial.satisfies goal.toList = true) {timeline : Timeline}
    (success : outcome.verdict = .success timeline) :
    outcome.statistics.nodes = 1 ∧ outcome.statistics.backtracks = 0 ∧
      outcome.statistics.transitions = horizon - startStep ∧
      outcome.statistics.maxStep = startStep := by
  obtain ⟨first, order⟩ := inOrder_of_run ended
  obtain ⟨table, -, -, concluded⟩ := concluded_of_run ended
  obtain ⟨ending, machine, halts, counts⟩ := Machine.step_initial_of_goal
    ⟨schema, settings.checked, goal, horizon.toNat⟩ (horizon - startStep).toNat table meter.start
    holds
  rw [Machine.run_of_halted halts] at concluded
  cases ending with
  | reached timeline =>
      cases concluded
      obtain ⟨nodes, backtracks, transitions, maxStep⟩ := counts timeline rfl
      dsimp only at maxStep ⊢
      omega
  | exhausted | refused _ =>
      cases concluded
      cases success
  | broken _ | narrow => cases concluded

/-- Whatever came of a search, its counts balance. -/
theorem balances_of_run {outcome : Outcome}
    (ended : (run schema settings initial goal horizon startStep meter).1 = .ok outcome) :
    outcome.Balances settings.usesTable (initial.satisfies goal.toList) startStep horizon := by
  obtain ⟨first, order⟩ := inOrder_of_run ended
  obtain ⟨table, made, -, concluded⟩ := concluded_of_run ended
  have last : ((horizon.toNat : Nat) : Int) = horizon := by omega
  have empty : ∀ t, table = some t → t.entries = ∅ :=
    fun t given => settings.entries_of_table (given ▸ made)
  have tally := Machine.tally_run ⟨schema, settings.checked, goal, horizon.toNat⟩ initial
    (horizon - startStep).toNat empty meter.start
  have hits := deadEndHits_of_run ended
  have immediate : ∀ timeline, outcome.verdict = .success timeline →
      initial.satisfies goal.toList = true → _ :=
    fun _ success holds => counts_of_immediate ended holds success
  generalize Machine.run ⟨schema, settings.checked, goal, horizon.toNat⟩ _ = final
    at tally concluded
  obtain ⟨ending, machine⟩ := final
  cases ending with
  | reached timeline =>
      cases concluded
      refine ⟨?_, ?_, fun _ _ => last ▸ tally, immediate, hits⟩
      · rintro ⟨⟩
      · rintro _ ⟨⟩
  | exhausted =>
      cases concluded
      refine ⟨fun _ => last ▸ tally, ?_, ?_, ?_, hits⟩ <;> rintro _ ⟨⟩
  | refused reason =>
      cases concluded
      refine ⟨?_, fun _ _ => tally, ?_, ?_, hits⟩
      · rintro ⟨⟩
      · rintro _ ⟨⟩
      · rintro _ ⟨⟩
  | broken _ | narrow => cases concluded

/--
Whatever a search comes to, under whatever budget and with whatever table, its
counts balance.  From a state that passes its checks it comes to an outcome
unless its table lacks room.
-/
theorem run_balances (schema : Schema) (settings : SearchSettings) (initial : State)
    (goal : OrderedSet Literal) (horizon startStep : Int) (meter : Meter) :
    (∀ outcome, (run schema settings initial goal horizon startStep meter).1 = .ok outcome →
        outcome.Balances settings.usesTable (initial.satisfies goal.toList) startStep horizon) ∧
      ((∃ objects declared, Schema.build objects declared = .ok schema) →
        (settings.checked = true → initial.scope = schema.scope ∧
          schema.verify initial (.whole startStep) none = .ok ()) →
        settings.HasRoom → 1 ≤ startStep → startStep ≤ horizon →
          ∃ outcome,
            (run schema settings initial goal horizon startStep meter).1 = .ok outcome) := by
  refine ⟨fun outcome ended => balances_of_run ended, ?_⟩
  rintro ⟨objects, declared, built⟩ verified room first order
  have accepted := Schema.accepted_of_build built
  have admits : settings.Admits schema initial :=
    ⟨fun checked => (verified checked).1, fun checked =>
      (Schema.verify_eq_ok_iff accepted (verified checked).1 _ _).mp (verified checked).2⟩
  obtain ⟨outcome, ended, -⟩ := run_answers accepted admits room goal first order meter
  exact ⟨outcome, ended⟩

/-- The search for a way of the lone disc makes one visit more than transitions, up to step five. -/
theorem run_balances_loneDisc :
    ∃ outcome, (run loneDisc {} loneDiscStart loneDiscGoal 5 1 (Meter.fresh {} .still)).1 =
        .ok outcome ∧
      outcome.verdict.isSuccess = true ∧
      outcome.statistics.transitions = outcome.statistics.nodes - 1 ∧
      outcome.statistics.maxStep = 5 := by
  obtain ⟨balances, ends⟩ :=
    run_balances loneDisc {} loneDiscStart loneDiscGoal 5 1 (Meter.fresh {} .still)
  obtain ⟨outcome, ended⟩ := ends unhindered_loneDisc.built unhindered_loneDisc.verified
    unhindered_loneDisc.room (by decide) (by decide)
  have reachable : (loneDisc.leftmost? loneDiscGoal.toList 4 loneDiscStart).isSome = true := by
    decide +kernel
  obtain ⟨steps, found⟩ := Option.isSome_iff_exists.mp reachable
  have verdict := (unhindered_loneDisc.run unhindered_loneDisc.room.roomy loneDiscGoal
    (by decide : (1 : Int) ≤ 1) (by decide : (1 : Int) ≤ 5)).1
  have left : ((5 : Int) - 1).toNat = 4 := rfl
  rw [ended, left, found] at verdict
  have success : outcome.verdict = .success (Timeline.ofSteps loneDiscStart steps) :=
    Except.ok.inj verdict
  exact ⟨outcome, ended, by rw [success]; rfl, (balances outcome ended).success _ success rfl⟩

end Search

end StackingPlanner
