import StackingPlanner.Proofs.Search.Balance

/-!
# What a search spends

The plain search fixes what a search without a table spends: a visit for each
state that it looks at, a transition for each choice that it tries, a backtrack
for each state whose choices have all failed.  What a search has spent, with
what its stack still owes, never grows, and only stays behind where the table
spares it a state.  So a table never makes a search spend more, and what a node
budget grants the search without one it grants the search with one.
-/

namespace StackingPlanner

/-- What searches spend. -/
inductive Expense where
  | visits
  | transitions
  | backtracks
  deriving DecidableEq

namespace Expense

variable (e : Expense)

def spent (s : Statistics) : Expense → Int
  | visits => s.nodes
  | transitions => s.transitions
  | backtracks => s.backtracks

/-- How much one unit of a kind adds to an expense: only those of its own kind count. -/
def price (kind : Expense) : Int := if e = kind then 1 else 0

theorem price_nonneg (kind : Expense) : 0 ≤ e.price kind := by
  unfold price
  split <;> decide

@[simp]
theorem spent_zero : e.spent Counts.zero = 0 := by
  cases e <;> rfl

theorem spent_visit (s : Statistics) (step : Int) :
    e.spent (s.visit step) = e.spent s + e.price .visits := by
  cases e <;> simp [spent, price, Counts.visit]

theorem spent_transitions (s : Statistics) (more : Int) :
    e.spent { s with transitions := s.transitions + more } =
      e.spent s + more * e.price .transitions := by
  cases e <;> simp [spent, price]

theorem spent_backtrack (s : Statistics) :
    e.spent { s with backtracks := s.backtracks + 1 } = e.spent s + e.price .backtracks := by
  cases e <;> simp [spent, price]

theorem spent_hit (s : Statistics) (hits : Int) :
    e.spent { s with deadEndHits := hits } = e.spent s := by
  cases e <;> rfl

theorem spent_elapsed (s : Statistics) (time : Number) :
    e.spent { s with elapsedMs := time } = e.spent s := by
  cases e <;> rfl

theorem spent_merge (s t : Statistics) : e.spent (s.merge t) = e.spent s + e.spent t := by
  cases e <;> rfl

/--
What the choices of a state cost when they are tried in order up to the first
one after which something is found, by what is spent on the states after them.
-/
def each (cost : State → Int) (finds : State → Bool) (s : State) : List Choice → Int
  | [] => e.price .backtracks
  | choice :: rest =>
      e.price .transitions + cost (s.after choice) +
        if finds (s.after choice) then 0 else each cost finds s rest

theorem each_nonneg {cost : State → Int} (nonneg : ∀ s, 0 ≤ cost s) (finds : State → Bool)
    (s : State) (choices : List Choice) : 0 ≤ e.each cost finds s choices := by
  induction choices with
  | nil => exact e.price_nonneg .backtracks
  | cons choice rest ih =>
      have price := e.price_nonneg .transitions
      have here := nonneg (s.after choice)
      rw [each]
      split <;> omega

end Expense

namespace SearchTask

variable (task : SearchTask) (e : Expense)

def finds (steps : Nat) (s : State) : Bool := (task.plain? steps s).isSome

def findsAfter (steps : Nat) (s : State) (choices : List Choice) : Bool :=
  choices.any (fun choice => task.finds steps (s.after choice))

def effort : Nat → State → Int
  | 0, _ => e.price .visits
  | steps + 1, s =>
      e.price .visits +
        if s.satisfies task.goal.toList then ((steps + 1 : Nat) : Int) * e.price .transitions
        else e.each (effort steps) (task.finds steps) s (task.schema.candidates s)

def effortAfter (steps : Nat) (s : State) (choices : List Choice) : Int :=
  e.each (task.effort e steps) (task.finds steps) s choices

variable {task e} {s : State} {steps : Nat} {choices : List Choice}

theorem effortAfter_nil : task.effortAfter e steps s [] = e.price .backtracks := rfl

theorem effortAfter_cons {choice : Choice} :
    task.effortAfter e steps s (choice :: choices) =
      e.price .transitions + task.effort e steps (s.after choice) +
        if task.finds steps (s.after choice) then 0 else task.effortAfter e steps s choices := rfl

theorem finds_eq_false_iff : task.finds steps s = false ↔ task.Fails s steps := by
  rw [finds, Fails, Option.isSome_eq_false_iff, Option.isNone_iff_eq_none]

theorem finds_of_goal (holds : s.satisfies task.goal.toList = true) :
    task.finds steps s = true := by
  rw [finds, plain?, Schema.leftmost?_of_goal holds]
  rfl

theorem finds_succ_of_not (unmet : s.satisfies task.goal.toList = false) :
    task.finds (steps + 1) s = task.findsAfter steps s (task.schema.candidates s) := by
  rw [finds, plain?, Schema.leftmost?_succ_of_not unmet, findsAfter, Bool.eq_iff_iff,
    Schema.tryEach_isSome_iff, List.any_eq_true]
  rfl

theorem effort_of_goal (holds : s.satisfies task.goal.toList = true) :
    task.effort e steps s = e.price .visits + steps * e.price .transitions := by
  cases steps with
  | zero => simp [effort]
  | succ steps => rw [effort, if_pos holds]

theorem effort_succ_of_not (unmet : s.satisfies task.goal.toList = false) :
    task.effort e (steps + 1) s =
      e.price .visits + task.effortAfter e steps s (task.schema.candidates s) := by
  rw [effort, if_neg (ne_true_of_eq_false unmet)]
  rfl

theorem price_le_effort (steps : Nat) (s : State) : e.price .visits ≤ task.effort e steps s := by
  induction steps generalizing s with
  | zero => exact Int.le_refl _
  | succ steps ih =>
      have nonneg : ∀ t, 0 ≤ task.effort e steps t :=
        fun t => Int.le_trans (e.price_nonneg .visits) (ih t)
      rw [effort]
      split
      · have := Int.mul_nonneg (Int.natCast_nonneg (steps + 1)) (e.price_nonneg .transitions)
        omega
      · have := e.each_nonneg nonneg (task.finds steps) s (task.schema.candidates s)
        omega

end SearchTask

/-- What a stack still owes: what the plain search spends on what was not looked at yet. -/
def Frame.owed (task : SearchTask) (e : Expense) : List Frame → Int
  | [] => 0
  | f :: below =>
      match f.pending with
      | none =>
          task.effort e f.remaining f.state +
            if task.finds f.remaining f.state then 0 else owed task e below
      | some untried =>
          task.effortAfter e (f.remaining - 1) f.state untried +
            if task.findsAfter (f.remaining - 1) f.state untried then 0 else owed task e below

namespace Frame

variable {task : SearchTask} {e : Expense} {f : Frame} {below : List Frame}

theorem owed_fresh (fresh : f.pending = none) :
    owed task e (f :: below) = task.effort e f.remaining f.state +
      if task.finds f.remaining f.state then 0 else owed task e below := by
  rw [owed, fresh]

theorem owed_pending {untried : List Choice} (pending : f.pending = some untried) :
    owed task e (f :: below) = task.effortAfter e (f.remaining - 1) f.state untried +
      if task.findsAfter (f.remaining - 1) f.state untried then 0 else owed task e below := by
  rw [owed, pending]

/-- Trying a choice leaves what the choices owed, but for the transition. -/
theorem owed_push (task : SearchTask) (e : Expense) (remaining : Nat) (s : State)
    (choice : Choice) (untried : List Choice) (below : List Frame) :
    e.price .transitions +
        owed task e (fresh (remaining - 1) (s.after choice) ::
          ⟨remaining, s, choice, some untried⟩ :: below) =
      task.effortAfter e (remaining - 1) s (choice :: untried) +
        if task.findsAfter (remaining - 1) s (choice :: untried) then 0
        else owed task e below := by
  have top : owed task e (fresh (remaining - 1) (s.after choice) ::
        ⟨remaining, s, choice, some untried⟩ :: below) =
      task.effort e (remaining - 1) (s.after choice) +
        if task.finds (remaining - 1) (s.after choice) then 0
        else task.effortAfter e (remaining - 1) s untried +
          if task.findsAfter (remaining - 1) s untried then 0 else owed task e below := rfl
  rw [top, SearchTask.findsAfter, SearchTask.findsAfter, List.any_cons,
    SearchTask.effortAfter_cons]
  cases task.finds (remaining - 1) (s.after choice) with
  | true => simp
  | false =>
      rw [Bool.false_or, if_neg Bool.false_ne_true, if_neg Bool.false_ne_true]
      omega

end Frame

namespace Machine

variable {task : SearchTask} {e : Expense} {start : State} {count : Nat} {m n : Machine}

def bill (task : SearchTask) (e : Expense) (m : Machine) : Int :=
  e.spent m.statistics + Frame.owed task e m.frames

/-- A move only makes the bill smaller where the table spares the search a state. -/
theorem bill_next (sound : m.Sound task start count) (move : Move task m (.going n)) :
    n.bill task e ≤ m.bill task e ∧ (m.table = none → n.bill task e = m.bill task e) := by
  suffices equal : n.bill task e = m.bill task e ∨
      m.table ≠ none ∧ n.bill task e ≤ m.bill task e by
    rcases equal with equal | ⟨tabled, less⟩
    · exact ⟨Int.le_of_eq equal, fun _ => equal⟩
    · exact ⟨less, fun untabled => absurd untabled tabled⟩
  unfold bill
  cases move with
  | @fail f below table noted meter used statistics fresh charged unmet last remembered =>
      have fails : task.finds f.remaining f.state = false := by
        rw [last]
        exact SearchTask.finds_eq_false_iff.mpr (SearchTask.fails_of_last unmet)
      rw [Frame.owed_fresh fresh, fails, Expense.spent_visit]
      simp only [last, SearchTask.effort]
      simp
      omega
  | @prune f below table touched meter used statistics fresh charged unmet remains known =>
      have fails := sound.table.truthful.fails_of_lookUp (congrArg Prod.fst known)
      have visit : e.price .visits ≤ task.effort e f.remaining f.state :=
        SearchTask.price_le_effort f.remaining f.state
      refine .inr ⟨?_, ?_⟩
      · rintro rfl
        cases known
      · rw [Frame.owed_fresh fresh, SearchTask.finds_eq_false_iff.mpr fails, Expense.spent_hit,
          Expense.spent_visit]
        simp
        omega
  | @descend f below table touched meter used statistics choice untried successor fresh charged
      unmet remains unknown candidates advanced =>
      obtain ⟨fewer, same⟩ := Nat.exists_eq_succ_of_ne_zero remains
      rw [Schema.eq_after_of_advance advanced]
      have push := Frame.owed_push task e f.remaining f.state choice untried below
      rw [Frame.owed_fresh fresh, Expense.spent_transitions, Expense.spent_visit]
      rw [same, Nat.succ_sub_one, ← candidates] at push
      simp only [same, Nat.succ_sub_one, Nat.succ_eq_add_one,
        SearchTask.effort_succ_of_not unmet, SearchTask.finds_succ_of_not unmet] at push ⊢
      omega
  | @retry f below table meter statistics choice untried successor pending advanced =>
      rw [Schema.eq_after_of_advance advanced]
      have push := Frame.owed_push task e f.remaining f.state choice untried below
      rw [Frame.owed_pending pending, Expense.spent_transitions]
      dsimp only
      omega
  | @close f below table noted meter statistics pending remembered =>
      rw [Frame.owed_pending pending, Expense.spent_backtrack]
      simp [SearchTask.effortAfter_nil, SearchTask.findsAfter]
      omega

/-- If a search is not cut off, all that its stack owed is paid when it halts. -/
theorem bill_halt {ending : Ending} (halts : step task m = .halted ending n)
    (whole : ending.Answers task start count) (granted : ∀ reason, ending ≠ .refused reason) :
    e.spent n.statistics = m.bill task e := by
  unfold bill
  cases move_of_halt halts with
  | exhaust => exact (Int.add_zero _).symm
  | refuse => exact absurd rfl (granted _)
  | @reach f below table meter used statistics fresh charged holds =>
      rw [Frame.owed_fresh fresh, SearchTask.finds_of_goal holds,
        SearchTask.effort_of_goal holds, Expense.spent_transitions, Expense.spent_visit]
      simp
      omega
  | breach | lack => cases whole

theorem bill_initial (task : SearchTask) (e : Expense) (count : Nat) (start : State)
    (table : Option StateTable) (meter : Meter) :
    (initial count start table meter).bill task e = task.effort e count start := by
  simp [bill, initial, Frame.owed_fresh, Frame.owed, Frame.fresh]

/-- A search that is not cut off spends no more than the plain search, and as much without a table. -/
theorem run_spends (smooth : task.schema.Smooth task.checked start) {table : Option StateTable}
    (trusts : task.Trusts table) (meter : Meter) (count : Nat)
    (granted : ∀ reason, (run task (initial count start table meter)).1 ≠ .refused reason) :
    e.spent (run task (initial count start table meter)).2.statistics ≤
        task.effort e count start ∧
      (table = none → e.spent (run task (initial count start table meter)).2.statistics =
        task.effort e count start) := by
  -- The bill falls from step to step, and without a table it stays.
  let keeps (m : Machine) : Prop := m.Sound task start count ∧
    m.bill task e ≤ task.effort e count start ∧
    (table = none → m.table = none ∧ m.bill task e = task.effort e count start)
  have preserved : ∀ m n, keeps m → step task m = .going n → keeps n := by
    rintro m n ⟨sound, most, whole⟩ next
    have move := move_of_step next
    obtain ⟨less, same⟩ := bill_next (e := e) sound move
    refine ⟨sound.next move, Int.le_trans less most, fun untabled => ?_⟩
    obtain ⟨none, paid⟩ := whole untabled
    exact ⟨(untabled_next move none).1, (same none).trans paid⟩
  have initially := bill_initial task e count start table meter
  obtain ⟨last, ⟨sound, most, whole⟩, halts⟩ := run_keeps preserved
    (⟨sound_initial trusts meter, Int.le_of_eq initially, fun untabled => ⟨untabled, initially⟩⟩ :
      keeps (initial count start table meter))
  have paid := bill_halt (e := e) halts (run_initial_answers task smooth trusts meter count) granted
  rw [paid]
  exact ⟨most, fun untabled => (whole untabled).2⟩

end Machine

namespace Search

variable {schema : Schema} {settings : SearchSettings} {initial : State}
  {goal : OrderedSet Literal} {horizon startStep : Int} {meter used : Meter}

/-- A search that was not aborted spends no more than the plain search, and as much without a table. -/
theorem spent_of_run (e : Expense) (fit : Fit schema settings initial startStep meter)
    (roomy : settings.Roomy) {outcome : Outcome}
    (ended : (run schema settings initial goal horizon startStep used).1 = .ok outcome)
    (whole : ∀ reason, outcome.verdict ≠ .aborted reason) :
    let task : SearchTask := ⟨schema, settings.checked, goal, horizon.toNat⟩
    e.spent outcome.statistics ≤ task.effort e (horizon - startStep).toNat initial ∧
      (settings.usesTable = false →
        e.spent outcome.statistics = task.effort e (horizon - startStep).toNat initial) := by
  intro task
  obtain ⟨table, made, -, concluded⟩ := concluded_of_run ended
  obtain ⟨_, same, new⟩ := roomy
  cases made.symm.trans same
  have granted : ∀ reason, (Machine.run task
      (.initial (horizon - startStep).toNat initial table used.start)).1 ≠ .refused reason := by
    intro reason refused
    rw [refused] at concluded
    cases concluded
    exact whole reason rfl
  have smooth : task.schema.Smooth task.checked initial := fit.smooth
  obtain ⟨most, exact⟩ := Machine.run_spends (e := e) smooth (SearchTask.trusts_of_empty new)
    used.start (horizon - startStep).toNat granted
  rw [statistics_of_conclude concluded, Expense.spent_elapsed]
  exact ⟨most, fun unused => exact (settings.table_of_unused unused made)⟩

theorem not_aborted_of_ofSteps? {outcome : Outcome} {found : Option Steps}
    (verdict : outcome.verdict = .ofSteps? initial found) (reason : Refusal) :
    outcome.verdict ≠ .aborted reason := by
  rw [verdict]
  cases found <;> rintro ⟨⟩

/--
A search with a table makes no more visits, transitions and backtracks than the
one without.  So under every bound on the visits that does not abort the one
without its table, the one with it comes to the same verdict.
-/
theorem run_tabled (free : Unhindered schema settings initial startStep meter)
    (goal : OrderedSet Literal) (first : 1 ≤ startStep) (order : startStep ≤ horizon) :
    let bare : SearchSettings := { settings with usesTable := false }
    ∃ tabled plain,
      (run schema settings initial goal horizon startStep meter).1 = .ok tabled ∧
      (run schema bare initial goal horizon startStep meter).1 = .ok plain ∧
      tabled.statistics.nodes ≤ plain.statistics.nodes ∧
      tabled.statistics.transitions ≤ plain.statistics.transitions ∧
      tabled.statistics.backtracks ≤ plain.statistics.backtracks ∧
      ∀ (limit : Nat) (bounded : Meter), bounded.budget = { maxNodes := some (.whole limit) } →
        bounded.cancelled = false → bounded.nodes ≤ limit → ∀ outcome,
          (run schema bare initial goal horizon startStep bounded).1 = .ok outcome →
          (∀ reason, outcome.verdict ≠ .aborted reason) →
          ∃ same, (run schema settings initial goal horizon startStep bounded).1 = .ok same ∧
            same.verdict = outcome.verdict := by
  intro bare
  have bareFree := free.untabled
  obtain ⟨tabled, ended, threshold⟩ := free.exists_threshold goal first order
  obtain ⟨plain, bareEnded, bareThreshold⟩ := bareFree.exists_threshold goal first order
  -- Both have the verdict of the plain search.
  have verdict := (free.run free.room.roomy goal first order).1
  have bareVerdict := (bareFree.run bareFree.room.roomy goal first order).1
  rw [ended] at verdict
  rw [bareEnded] at bareVerdict
  have verdict := Except.ok.inj verdict
  have bareVerdict := Except.ok.inj bareVerdict
  have less : ∀ e : Expense, e.spent tabled.statistics ≤ e.spent plain.statistics := by
    intro e
    have most := (spent_of_run e free.toFit free.room.roomy ended
      (not_aborted_of_ofSteps? verdict)).1
    have exact := (spent_of_run e bareFree.toFit bareFree.room.roomy bareEnded
      (not_aborted_of_ofSteps? bareVerdict)).2 rfl
    exact Int.le_trans most (Int.le_of_eq exact.symm)
  refine ⟨tabled, plain, ended, bareEnded, less .visits, less .transitions, less .backtracks, ?_⟩
  intro limit bounded budget granting within outcome came whole
  have enough : plain.statistics.nodes ≤ limit - bounded.nodes := by
    apply Int.not_lt.mp
    intro short
    obtain ⟨cut, aborted, reason, -⟩ :=
      (bareThreshold limit bounded budget granting within).2 short
    cases came.symm.trans aborted
    exact whole _ reason
  have fewer : tabled.statistics.nodes ≤ plain.statistics.nodes := less .visits
  have same := (bareThreshold limit bounded budget granting within).1 enough
  cases came.symm.trans same
  exact ⟨tabled, (threshold limit bounded budget granting within).1 (Int.le_trans fewer enough),
    verdict.trans bareVerdict.symm⟩

/-- Ten visits are enough for the lone disc without a table, so they are with one. -/
theorem run_tabled_loneDisc :
    let ten : Meter := Meter.fresh { maxNodes := some (.whole 10) } .still
    ∃ plain tabled,
      (run loneDisc { usesTable := false } loneDiscStart loneDiscGoal 5 1 ten).1 = .ok plain ∧
      (run loneDisc {} loneDiscStart loneDiscGoal 5 1 ten).1 = .ok tabled ∧
      tabled.verdict = plain.verdict := by
  intro ten
  obtain ⟨tabled, plain, ended, bareEnded, -, -, -, bounded⟩ :=
    run_tabled unhindered_loneDisc loneDiscGoal (by decide : (1 : Int) ≤ 1)
      (by decide : (1 : Int) ≤ 5)
  have bareFree := unhindered_loneDisc.untabled
  obtain ⟨whole, finished, threshold⟩ := bareFree.exists_threshold loneDiscGoal
    (by decide : (1 : Int) ≤ 1) (by decide : (1 : Int) ≤ 5)
  cases bareEnded.symm.trans finished
  have verdict := (bareFree.run bareFree.room.roomy loneDiscGoal (by decide : (1 : Int) ≤ 1)
    (by decide : (1 : Int) ≤ 5)).1
  rw [bareEnded] at verdict
  have granted := not_aborted_of_ofSteps? (Except.ok.inj verdict)
  have visits : plain.statistics.nodes = 10 :=
    ((spent_of_run .visits bareFree.toFit bareFree.room.roomy bareEnded granted).2 rfl).trans
      (by decide +kernel)
  have enough := (threshold 10 ten rfl rfl (Nat.zero_le 10)).1 (Int.le_of_eq visits)
  obtain ⟨same, came, agrees⟩ := bounded 10 ten rfl rfl (Nat.zero_le 10) plain enough granted
  exact ⟨plain, same, enough, came, agrees⟩

end Search

end StackingPlanner
