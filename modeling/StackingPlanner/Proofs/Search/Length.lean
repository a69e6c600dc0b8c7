import Mathlib.Algebra.Ring.GeomSum
import StackingPlanner.Proofs.Search.Trace

/-!
# How long a search takes

In each state a search has at most as many choices as there are actions, and
doing nothing.  So it visits no more states than there are lists of as many
choices as steps remain, or of fewer, and it takes at most two turns for each
of them.  The weight of the machine falls with every turn, and it leaves room
for a visit of every frame; what its visits and its open frames pay for grows
by exactly one with every turn.
-/

namespace StackingPlanner

/-- The number of nodes of a tree of some height all of whose inner nodes have as many children. -/
def treeSize (children height : Nat) : Nat := ∑ k ∈ Finset.range (height + 1), children ^ k

theorem treeSize_pos (children height : Nat) : 0 < treeSize children height := by
  rw [treeSize, Finset.sum_range_succ']
  exact Nat.lt_of_lt_of_le Nat.one_pos (Nat.le_add_left _ _)

theorem treeSize_succ (children height : Nat) :
    treeSize children (height + 1) = children * treeSize children height + 1 :=
  geom_sum_succ

namespace Frame

/-- A frame that was not visited weighs twice the tree of what may be done from it, but for one. -/
theorem freshWeight_add_one (choices remaining : Nat) :
    freshWeight choices remaining + 1 = 2 * treeSize choices remaining := by
  induction remaining with
  | zero => rfl
  | succ remaining ih =>
      rw [freshWeight, ih, treeSize_succ, Nat.mul_add, Nat.mul_left_comm]
      omega

theorem length_le_totalWeight (choices : Nat) (frames : List Frame) :
    frames.length ≤ totalWeight choices frames := by
  induction frames with
  | nil => exact Nat.le_refl 0
  | cons f below ih =>
      have positive := f.weight_pos choices
      rw [List.length_cons, totalWeight]
      omega

def countOpen (frames : List Frame) : Nat := frames.countP (·.pending.isSome)

theorem countOpen_of_fresh {f : Frame} (fresh : f.pending = none) (below : List Frame) :
    countOpen (f :: below) = countOpen below := by
  simp [countOpen, fresh]

theorem countOpen_of_pending {f : Frame} {untried : List Choice}
    (pending : f.pending = some untried) (below : List Frame) :
    countOpen (f :: below) = countOpen below + 1 := by
  simp [countOpen, pending]

theorem countOpen_le_length (frames : List Frame) : countOpen frames ≤ frames.length :=
  List.countP_le_length

end Frame

namespace Machine

variable {task : SearchTask} {start : State} {count : Nat} {m n : Machine}

theorem visitsNext_of_fresh {f : Frame} {below : List Frame} {table : Option StateTable}
    {meter : Meter} {statistics : Statistics} (fresh : f.pending = none) :
    visitsNext ⟨f :: below, table, meter, statistics⟩ = true :=
  Option.isNone_iff_eq_none.mpr fresh

theorem visitsNext_of_pending {f : Frame} {below : List Frame} {table : Option StateTable}
    {meter : Meter} {statistics : Statistics} {untried : List Choice}
    (pending : f.pending = some untried) :
    visitsNext ⟨f :: below, table, meter, statistics⟩ = false := by
  simp [visitsNext, pending]

/-- The weight of a machine is enough for its open frames and for the visit that comes next. -/
theorem countOpen_add_le (task : SearchTask) (m : Machine) :
    Frame.countOpen m.frames + m.visitsNext.toNat ≤ weight task m := by
  obtain ⟨frames, table, meter, statistics⟩ := m
  refine Nat.le_trans ?_ (Frame.length_le_totalWeight task.width frames)
  cases frames with
  | nil => exact Nat.le_refl 0
  | cons f below =>
      have most := Frame.countOpen_le_length below
      cases pending : f.pending with
      | none =>
          rw [Frame.countOpen_of_fresh pending, visitsNext_of_fresh pending]
          exact Nat.succ_le_succ most
      | some untried =>
          rw [Frame.countOpen_of_pending pending, visitsNext_of_pending pending]
          exact Nat.succ_le_succ most

theorem weight_initial (task : SearchTask) (count : Nat) (start : State)
    (table : Option StateTable) (meter : Meter) :
    weight task (initial count start table meter) + 1 = 2 * treeSize task.width count :=
  Frame.freshWeight_add_one task.width count

/--
The number of turns that a machine has begun, by what it counts: two for each
visit, one less for each frame that is still open, and one if a visit comes next.
-/
def pace (m : Machine) : Int :=
  2 * m.statistics.nodes + m.visitsNext.toNat - Frame.countOpen m.frames

theorem pace_eq (m : Machine) :
    m.pace = 2 * m.statistics.nodes + m.visitsNext.toNat - Frame.countOpen m.frames := rfl

/-- The pace grows by one with every turn. -/
theorem pace_next (faithful : m.Faithful task start count) (move : Move task m (.going n)) :
    n.pace = m.pace + 1 := by
  unfold pace
  cases move with
  | fail fresh _ _ _ _ | prune fresh _ _ _ _ =>
      rw [faithful.path.not_visitsNext, visitsNext_of_fresh fresh, Frame.countOpen_of_fresh fresh]
      simp only [Counts.visit, Bool.toNat_true, Bool.toNat_false]
      omega
  | descend fresh _ _ _ _ _ _ =>
      rw [visitsNext_of_fresh rfl, visitsNext_of_fresh fresh, Frame.countOpen_of_fresh rfl,
        Frame.countOpen_of_pending rfl, Frame.countOpen_of_fresh fresh]
      simp only [Counts.visit]
      omega
  | retry pending _ =>
      rw [visitsNext_of_fresh rfl, visitsNext_of_pending pending, Frame.countOpen_of_fresh rfl,
        Frame.countOpen_of_pending rfl, Frame.countOpen_of_pending pending]
      simp only [Bool.toNat_true, Bool.toNat_false]
      omega
  | close pending _ =>
      rw [faithful.path.not_visitsNext, visitsNext_of_pending pending,
        Frame.countOpen_of_pending pending]
      simp only
      omega

/-- A machine that will visit a lone frame has not visited any. -/
def Unopened (m : Machine) : Prop :=
  m.visitsNext = true → Frame.countOpen m.frames = 0 → m.statistics.nodes = 0

theorem unopened_next (faithful : m.Faithful task start count) (move : Move task m (.going n)) :
    n.Unopened := by
  intro visits none
  cases move with
  | fail | prune | close =>
      rw [faithful.path.not_visitsNext] at visits
      cases visits
  | descend | retry =>
      rw [Frame.countOpen_of_fresh rfl, Frame.countOpen_of_pending rfl] at none
      cases none

theorem countTurns_of_going (next : step task m = .going n) :
    countTurns (trace task m) = countTurns (trace task n) + 1 := by
  obtain ⟨frames, table, meter, statistics⟩ := m
  cases frames with
  | nil => cases next
  | cons f below =>
      rw [trace_of_going next, countTurns, List.countP_cons]
      rfl

theorem countTurns_of_halted {ending : Ending} (next : step task m = .halted ending n) :
    countTurns (trace task m) = (!m.frames.isEmpty).toNat := by
  rw [trace_of_halted next, countTurns, List.countP_singleton]
  cases m.frames <;> rfl

structure Paced (task : SearchTask) (start : State) (count : Nat) (first m : Machine) : Prop where
  faithful : m.Faithful task start count
  unopened : m.Unopened
  /-- The turns that were begun and those that follow are all the turns of the search. -/
  turns : countTurns (trace task m) + m.pace = countTurns (trace task first) + first.pace
  /-- What the pace gains the weight loses. -/
  light : m.pace + weight task m ≤ first.pace + weight task first

variable {first last : Machine} {ending : Ending}

theorem Paced.next (paced : Paced task start count first m) (going : step task m = .going n) :
    Paced task start count first n := by
  have move := move_of_step going
  have pace := pace_next paced.faithful move
  refine ⟨paced.faithful.next move, unopened_next paced.faithful move, ?_, ?_⟩
  · rw [← paced.turns, countTurns_of_going going, pace]
    omega
  · have lighter := weight_lt_of_step going
    have light := paced.light
    omega

theorem nodes_step_le (task : SearchTask) (m : Machine) :
    (step task m).machine.statistics.nodes ≤ m.statistics.nodes + m.visitsNext.toNat := by
  cases visits : m.visitsNext with
  | false => exact Int.le_of_eq ((step_spares task visits).nodes.trans (Int.add_zero _).symm)
  | true =>
      rw [(step_visits task visits).nodes]
      split
      · exact Int.le_refl _
      · simp only [Bool.toNat_true]
        omega

/-- The weight of the first machine pays for all the visits. -/
theorem Paced.nodes_le (paced : Paced task start count first m)
    (halts : step task m = .halted ending last) :
    2 * last.statistics.nodes ≤ first.pace + weight task first := by
  have light := paced.light
  have pace := m.pace_eq
  have room := countOpen_add_le task m
  have counted := nodes_step_le task m
  simp only [halts, Progress.machine] at counted
  omega

/-- Two turns for each visit are enough, unless the first visit is refused. -/
theorem Paced.turns_le (paced : Paced task start count first m)
    (halts : step task m = .halted ending last) (outset : first.pace = 1) :
    (countTurns (trace task first) : Int) ≤ 2 * last.statistics.nodes ∨
      countTurns (trace task first) = 1 ∧ last.statistics.nodes = 0 ∧
        ∃ reason, ending = .refused reason := by
  have turns := paced.turns
  have pace := m.pace_eq
  have final : countTurns (trace task m) ≤ 1 := by
    rw [countTurns_of_halted halts]
    exact Bool.toNat_le _
  cases visits : m.visitsNext with
  | false =>
      have counted := (step_spares task visits).nodes
      simp only [halts, Progress.machine] at counted
      simp only [visits, Bool.toNat_false] at pace
      exact .inl (by omega)
  | true =>
      simp only [visits, Bool.toNat_true] at pace
      cases charged : m.meter.charge with
      | mk refusal used =>
          cases refusal with
          | none =>
              have counted := (step_visits task visits).nodes
              simp only [halts, Progress.machine, charged, Option.isNone_none, if_true] at counted
              exact .inl (by omega)
          | some reason =>
              -- Only the first visit is refused before any frame is open.
              cases halts.symm.trans (step_of_refused visits charged)
              dsimp only
              rcases Nat.eq_zero_or_pos (Frame.countOpen m.frames) with alone | opened
              · have unvisited := paced.unopened visits alone
                rcases Nat.eq_zero_or_pos (countTurns (trace task first)) with zero | positive
                · exact .inl (by omega)
                · exact .inr ⟨by omega, unvisited, reason, rfl⟩
              · exact .inl (by omega)

/-- However a search halts, its visits and its turns are bounded by the tree of its choices. -/
theorem bounded_run (task : SearchTask) (count : Nat) (start : State) {table : Option StateTable}
    (empty : ∀ t, table = some t → t.entries = ∅) (meter : Meter) :
    (run task (initial count start table meter)).2.statistics.nodes ≤ treeSize task.width count ∧
      ((countTurns (trace task (initial count start table meter)) : Int) ≤
          2 * (run task (initial count start table meter)).2.statistics.nodes ∨
        countTurns (trace task (initial count start table meter)) = 1 ∧
          (run task (initial count start table meter)).2.statistics.nodes = 0 ∧
          ∃ reason, (run task (initial count start table meter)).1 = .refused reason) := by
  have faithful : (initial count start table meter).Faithful task start count :=
    faithful_initial (SearchTask.truthful_of_empty empty) meter
  have outset : (initial count start table meter).pace = 1 := rfl
  have heavy := weight_initial task count start table meter
  obtain ⟨last, paced, halts⟩ := run_keeps (fun _ _ paced going => Paced.next paced going)
    (⟨faithful, fun _ _ => rfl, rfl, Int.le_refl _⟩ :
      Paced task start count (initial count start table meter) (initial count start table meter))
  have nodes := paced.nodes_le halts
  exact ⟨by omega, paced.turns_le halts outset⟩

end Machine

namespace Search

/--
The loop of a search that begins ends after finitely many turns, whatever its
budget and its table.  With as many choices in each state as there are actions,
and one more, its visits are no more than the lists of choices for some of the
steps that remain, and its turns no more than twice as many.
-/
theorem trace_bounded (schema : Schema) (settings : SearchSettings) (initial : State)
    (goal : OrderedSet Literal) (horizon startStep : Int) (meter : Meter)
    (table : Option StateTable)
    (begins : Begins schema settings initial horizon startStep table) :
    ∃ ending halted,
      Machine.IsRun ⟨schema, settings.checked, goal, horizon.toNat⟩
        (.initial (horizon - startStep).toNat initial table meter.start)
        (trace schema settings initial goal horizon startStep meter) ending halted ∧
      run schema settings initial goal horizon startStep meter =
        (conclude settings startStep ending halted.statistics, halted.meter) ∧
      halted.statistics.nodes ≤
        (∑ k ∈ Finset.range ((horizon - startStep).toNat + 1),
          (schema.actions.length + 1) ^ k : Nat) ∧
      Machine.countTurns (trace schema settings initial goal horizon startStep meter) ≤
        2 * ∑ k ∈ Finset.range ((horizon - startStep).toNat + 1),
          (schema.actions.length + 1) ^ k ∧
      ((Machine.countTurns (trace schema settings initial goal horizon startStep meter) : Int) ≤
          2 * halted.statistics.nodes ∨
        Machine.countTurns (trace schema settings initial goal horizon startStep meter) = 1 ∧
          halted.statistics.nodes = 0 ∧ ∃ reason, ending = .refused reason) := by
  obtain ⟨nodes, turns⟩ := Machine.bounded_run ⟨schema, settings.checked, goal, horizon.toNat⟩
    (horizon - startStep).toNat initial
    (fun t given => settings.entries_of_table (given ▸ begins.made)) meter.start
  rw [begins.trace_eq]
  refine ⟨_, _, Machine.isRun_trace _ _, run_eq begins.inOrder begins.made begins.passes, nodes,
    ?_, turns⟩
  have positive := treeSize_pos (schema.actions.length + 1) (horizon - startStep).toNat
  change _ ≤ 2 * treeSize (schema.actions.length + 1) (horizon - startStep).toNat
  simp only [SearchTask.width] at nodes
  rcases turns with twice | ⟨once, -, -⟩ <;> omega

/-- The search for a way of the lone disc, with four actions in four steps, halts in time. -/
theorem trace_bounded_loneDisc :
    ∃ halted : Machine,
      (run loneDisc {} loneDiscStart loneDiscGoal 5 1 (Meter.fresh {} .still)).2 = halted.meter ∧
      halted.statistics.nodes ≤ 781 ∧
      Machine.countTurns
        (trace loneDisc {} loneDiscStart loneDiscGoal 5 1 (Meter.fresh {} .still)) ≤ 2 * 781 := by
  obtain ⟨table, made, -⟩ := unhindered_loneDisc.room.roomy
  have begins : Begins loneDisc {} loneDiscStart 5 1 table :=
    unhindered_loneDisc.begins (by decide) (by decide) made
  have tree : ∑ k ∈ Finset.range (((5 : Int) - 1).toNat + 1),
      (loneDisc.actions.length + 1) ^ k = 781 := by decide
  obtain ⟨ending, halted, -, result, nodes, turns, -⟩ :=
    trace_bounded loneDisc {} loneDiscStart loneDiscGoal 5 1 (Meter.fresh {} .still) table begins
  rw [tree] at nodes turns
  exact ⟨halted, congrArg Prod.snd result, nodes, turns⟩

end Search

end StackingPlanner
