import Mathlib.Algebra.GroupWithZero.Nat
import Mathlib.Data.Finset.Prod
import Mathlib.Order.Interval.Finset.Nat
import StackingPlanner.Proofs.Reachable
import StackingPlanner.Proofs.Search.Threshold

/-!
# No configuration is expanded twice

A search expands a configuration, a state with the number of steps that remain
after it, when it lists the candidates of the state to try them one after
another.  If its table has a place for every state that can be reached, nothing
is ever forgotten: a configuration that was expanded is still on the stack or
the table knows that it fails.  On the stack fewer steps remain in every frame
than in those below it, and what the table knows is not expanded again.  So the
number of configurations bounds the work of a search.
-/

namespace StackingPlanner

namespace DeadEndTable

variable {κ : Type} [BEq κ] [Hashable κ]

/-- A table with a place for each of the keys that are ever recorded in it. -/
structure Spacious (keys : Finset κ) (t : DeadEndTable κ Int) : Prop where
  within : t.Vouches (fun key _ => key ∈ keys)
  places : ∃ places : Nat, keys.card ≤ places ∧
    Number.isAtMost (.whole places) t.capacity = true

variable {keys : Finset κ} {t u : DeadEndTable κ Int} {key : κ} {remaining : Int}

variable [LawfulBEq κ]

theorem Spacious.isFull_eq (spacious : t.Spacious keys) (member : key ∈ keys)
    (new : t.entries[key]? = none) : t.isFull = false := by
  obtain ⟨places, enough, large⟩ := spacious.places
  have absent : key ∉ t.entries.keys := by
    rw [Std.HashMap.mem_keys, Std.HashMap.mem_iff_isSome_getElem?, new]
    exact Bool.false_ne_true
  have count : (key :: t.entries.keys).length ≤ keys.card := by
    refine length_le_card_of_nodup (List.nodup_cons.mpr ⟨absent, Std.HashMap.nodup_keys⟩) ?_
    intro other among
    rcases List.mem_cons.mp among with rfl | among
    · exact member
    · rw [Std.HashMap.mem_keys, Std.HashMap.mem_iff_isSome_getElem?,
        Option.isSome_iff_exists] at among
      obtain ⟨entry, found⟩ := among
      exact spacious.within other entry found
  rw [List.length_cons, Std.HashMap.length_keys] at count
  refine Number.isBelow_of_le large ?_
  rw [size]
  omega

theorem Spacious.isDeadEnd (spacious : t.Spacious keys) (key : κ) (remaining : Int) :
    (t.isDeadEnd key remaining).2.Spacious keys :=
  ⟨spacious.within.isDeadEnd key remaining, by
    rw [capacity_isDeadEnd]
    exact spacious.places⟩

theorem Spacious.record? (spacious : t.Spacious keys) (member : key ∈ keys)
    (recorded : t.record? key remaining = some u) : u.Spacious keys :=
  ⟨spacious.within.record? member recorded, by
    rw [capacity_record? recorded]
    exact spacious.places⟩

end DeadEndTable

namespace Frame

/-- The configuration of a frame: its state with the number of steps that remain after it. -/
def config (f : Frame) : State × Nat := (f.state, f.remaining)

/-- The visits that a frame is good for: its own, or one for each choice that it has not tried. -/
def debt (f : Frame) : Nat :=
  match f.pending with
  | none => 1
  | some untried => untried.length

def opened (frames : List Frame) : List (State × Nat) :=
  (frames.filter (·.pending.isSome)).map config

/-- A state that can be reached from a start so that just so many of all steps remain. -/
def Reached (schema : Schema) (start : State) (count : Nat) (s : State) (remaining : Nat) : Prop :=
  ∃ choices, schema.Walk start choices s ∧ choices.length + remaining = count

/--
The shape of a stack: in every frame fewer steps remain than in those below it,
its state can be reached with the steps before, and its untried choices can be
made.
-/
structure Stacked (schema : Schema) (start : State) (count : Nat) (frames : List Frame) :
    Prop where
  deeper : frames.Pairwise (fun f g => f.remaining < g.remaining)
  reached : ∀ f ∈ frames, Reached schema start count f.state f.remaining
  allowed : ∀ f ∈ frames, ∀ untried, f.pending = some untried →
    ∀ choice ∈ untried, schema.Allows f.state choice

section Stacked

variable {schema : Schema} {start : State} {count : Nat} {f : Frame} {below : List Frame}

theorem Stacked.pop (stacked : Stacked schema start count (f :: below)) :
    Stacked schema start count below where
  deeper := (List.pairwise_cons.mp stacked.deeper).2
  reached g member := stacked.reached g (List.mem_cons_of_mem _ member)
  allowed g member := stacked.allowed g (List.mem_cons_of_mem _ member)

/-- The choices of the top frame that it has not tried yet may be others that can be made. -/
theorem Stacked.pend (stacked : Stacked schema start count (f :: below)) (choice : Choice)
    {untried : List Choice} (allowed : ∀ c ∈ untried, schema.Allows f.state c) :
    Stacked schema start count (⟨f.remaining, f.state, choice, some untried⟩ :: below) where
  deeper := by
    obtain ⟨first, rest⟩ := List.pairwise_cons.mp stacked.deeper
    exact List.pairwise_cons.mpr ⟨first, rest⟩
  reached := by
    exact List.forall_mem_cons.mpr ⟨stacked.reached f List.mem_cons_self, stacked.pop.reached⟩
  allowed := by
    refine List.forall_mem_cons.mpr ⟨?_, stacked.pop.allowed⟩
    rintro _ ⟨⟩
    exact allowed

theorem Stacked.push (stacked : Stacked schema start count (f :: below)) (remains : f.remaining ≠ 0)
    {choice : Choice} (allowed : schema.Allows f.state choice) :
    Stacked schema start count
      (Frame.fresh (f.remaining - 1) (f.state.after choice) :: f :: below) where
  deeper := by
    refine List.pairwise_cons.mpr ⟨?_, stacked.deeper⟩
    have less : f.remaining - 1 < f.remaining := by omega
    refine List.forall_mem_cons.mpr ⟨less, fun g member => ?_⟩
    exact less.trans ((List.pairwise_cons.mp stacked.deeper).1 g member)
  reached := by
    refine List.forall_mem_cons.mpr ⟨?_, stacked.reached⟩
    obtain ⟨choices, walk, length⟩ := stacked.reached f List.mem_cons_self
    refine ⟨choices ++ [choice], walk.snoc allowed, ?_⟩
    rw [List.length_append, List.length_singleton, Frame.fresh]
    dsimp only
    omega
  allowed := by
    refine List.forall_mem_cons.mpr ⟨?_, stacked.allowed⟩
    rintro untried ⟨⟩

end Stacked

theorem opened_cons_of_fresh {f : Frame} (fresh : f.pending = none) (below : List Frame) :
    opened (f :: below) = opened below := by
  simp [opened, fresh]

theorem opened_cons_of_pending {f : Frame} {untried : List Choice}
    (pending : f.pending = some untried) (below : List Frame) :
    opened (f :: below) = f.config :: opened below := by
  simp [opened, pending]

end Frame

namespace Machine

/--
The configuration that the next step expands, if it expands one: the top frame
is fresh, its visit is granted, the goal does not hold in it, steps remain, and
the table does not know that it fails.
-/
def expands? (task : SearchTask) (m : Machine) : Option (State × Nat) :=
  match m.frames with
  | [] => none
  | f :: _ =>
      if f.pending = none ∧ m.meter.charge.1 = none ∧
          f.state.satisfies task.goal.toList = false ∧ f.remaining ≠ 0 ∧
          (lookUp m.table f).1 = false then
        some f.config
      else none

def expansions (task : SearchTask) (m : Machine) : List (State × Nat) :=
  match _next : step task m with
  | .going n => (expands? task m).toList ++ expansions task n
  | .halted _ _ => (expands? task m).toList
termination_by weight task m
decreasing_by exact weight_lt_of_step _next

/--
The invariant of a search whose table has a place for every reachable state.
Of the configurations that were expanded, all are different, and each is still
on the stack or known to fail; and every visit was that of the first frame or
of the child of one of them.
-/
structure Logged (task : SearchTask) (start : State) (count : Nat) (seen : List (State × Nat))
    (m : Machine) : Prop where
  stacked : Frame.Stacked task.schema start count m.frames
  distinct : seen.Nodup
  within : ∀ e ∈ seen, Frame.Reached task.schema start count e.1 e.2 ∧ e.2 ≠ 0
  opened : ∀ e ∈ Frame.opened m.frames, e ∈ seen
  settled : ∀ e ∈ seen, e ∈ Frame.opened m.frames ∨
    ∃ t, m.table = some t ∧ t.Knows e.1.facts e.2
  table : ∃ t, m.table = some t ∧
    t.Spacious ((task.schema.reachable count start).image (·.facts))
  backtracks : m.statistics.backtracks + (Frame.opened m.frames).length = seen.length
  nodes : m.statistics.nodes + (m.frames.map Frame.debt).sum ≤ 1 + task.width * seen.length

section Logged

variable {task : SearchTask} {start : State} {count : Nat} {seen : List (State × Nat)}
  {f : Frame} {below : List Frame} {t u : StateTable} {meter used : Meter}
  {statistics counted : Statistics}

/-- A configuration that was expanded does not come to the top again, unless the table knows it. -/
theorem Logged.not_mem
    (logged : Logged task start count seen ⟨f :: below, some t, meter, statistics⟩)
    (fresh : f.pending = none) (unknown : ¬ t.Knows f.state.facts f.remaining) :
    f.config ∉ seen := by
  intro member
  rcases logged.settled f.config member with here | ⟨table, same, known⟩
  · rw [Frame.opened_cons_of_fresh fresh] at here
    obtain ⟨g, open?, same⟩ := List.mem_map.mp here
    have deeper := (List.pairwise_cons.mp logged.stacked.deeper).1 g (List.mem_of_mem_filter open?)
    have remaining : g.remaining = f.remaining := congrArg Prod.snd same
    omega
  · cases same
    exact unknown known

theorem Logged.pop (logged : Logged task start count seen ⟨f :: below, some t, meter, statistics⟩)
    (grows : ∀ key steps, t.Knows key steps → u.Knows key steps)
    (noted : f.pending.isSome = true → u.Knows f.state.facts f.remaining)
    (spacious : u.Spacious ((task.schema.reachable count start).image (·.facts)))
    (backtracks : counted.backtracks = statistics.backtracks + f.pending.isSome.toNat)
    (nodes : counted.nodes ≤ statistics.nodes + f.debt) :
    Logged task start count seen ⟨below, some u, used, counted⟩ := by
  have opened : ∀ e ∈ Frame.opened (f :: below), e ∈ Frame.opened below ∨
      f.pending.isSome = true ∧ e = f.config := by
    intro e member
    cases pending : f.pending with
    | none =>
        rw [Frame.opened_cons_of_fresh pending] at member
        exact .inl member
    | some untried =>
        rw [Frame.opened_cons_of_pending pending, List.mem_cons] at member
        exact member.symm.imp_right (fun same => ⟨rfl, same⟩)
  have length : (Frame.opened (f :: below)).length =
      (Frame.opened below).length + f.pending.isSome.toNat := by
    cases pending : f.pending with
    | none => rw [Frame.opened_cons_of_fresh pending]; rfl
    | some untried => rw [Frame.opened_cons_of_pending pending]; rfl
  constructor
  case stacked => exact logged.stacked.pop
  case distinct => exact logged.distinct
  case within => exact logged.within
  case opened =>
    intro e member
    apply logged.opened
    cases pending : f.pending with
    | none => rwa [Frame.opened_cons_of_fresh pending]
    | some untried =>
        rw [Frame.opened_cons_of_pending pending]
        exact List.mem_cons_of_mem _ member
  case settled =>
    intro e member
    rcases logged.settled e member with here | ⟨table, same, known⟩
    · rcases opened e here with deeper | ⟨visited, rfl⟩
      · exact .inl deeper
      · exact .inr ⟨u, rfl, noted visited⟩
    · cases same
      exact .inr ⟨u, rfl, grows _ _ known⟩
  case table => exact ⟨u, rfl, spacious⟩
  case backtracks =>
    have before := logged.backtracks
    dsimp only at before ⊢
    rw [length] at before
    omega
  case nodes =>
    have before := logged.nodes
    simp only [List.map_cons, List.sum_cons] at before
    dsimp only
    omega

theorem Logged.expand
    (logged : Logged task start count seen ⟨f :: below, some t, meter, statistics⟩)
    (fresh : f.pending = none) (remains : f.remaining ≠ 0)
    (unknown : ¬ t.Knows f.state.facts f.remaining)
    (grows : ∀ key steps, t.Knows key steps → u.Knows key steps)
    (spacious : u.Spacious ((task.schema.reachable count start).image (·.facts)))
    (choice : Choice)
    (backtracks : counted.backtracks = statistics.backtracks)
    (nodes : counted.nodes = statistics.nodes + 1) :
    Logged task start count (seen ++ [f.config])
      ⟨⟨f.remaining, f.state, choice, some (task.schema.candidates f.state)⟩ :: below, some u, used,
        counted⟩ := by
  have added := Frame.opened_cons_of_pending
    (f := ⟨f.remaining, f.state, choice, some (task.schema.candidates f.state)⟩) rfl below
  constructor
  case stacked => exact logged.stacked.pend choice (fun _ => Schema.mem_candidates_iff.mp)
  case distinct =>
    rw [List.nodup_append_comm]
    exact List.nodup_cons.mpr ⟨logged.not_mem fresh unknown, logged.distinct⟩
  case within =>
    refine List.forall_mem_append.mpr ⟨logged.within, ?_⟩
    rw [List.forall_mem_singleton]
    exact ⟨logged.stacked.reached f List.mem_cons_self, remains⟩
  case opened =>
    have before := logged.opened
    rw [Frame.opened_cons_of_fresh fresh] at before
    rw [added, List.forall_mem_cons]
    exact ⟨List.mem_append_right _ List.mem_cons_self,
      fun e member => List.mem_append_left _ (before e member)⟩
  case settled =>
    have before := logged.settled
    rw [Frame.opened_cons_of_fresh fresh] at before
    rw [added, List.forall_mem_append]
    constructor
    · intro e member
      rcases before e member with here | ⟨table, same, known⟩
      · exact .inl (List.mem_cons_of_mem _ here)
      · cases same
        exact .inr ⟨u, rfl, grows _ _ known⟩
    · rw [List.forall_mem_singleton]
      exact .inl List.mem_cons_self
  case table => exact ⟨u, rfl, spacious⟩
  case backtracks =>
    have before := logged.backtracks
    rw [Frame.opened_cons_of_fresh fresh] at before
    rw [added]
    simp only [List.length_cons, List.length_append, List.length_nil]
    dsimp only at before
    omega
  case nodes =>
    have before := logged.nodes
    have fewer := task.candidates_length_le f.state
    simp only [List.map_cons, List.sum_cons, Frame.debt, fresh, List.length_append,
      List.length_singleton] at before ⊢
    rw [Int.natCast_succ seen.length, Int.mul_add, Int.mul_one]
    omega

theorem Logged.push {choice : Choice} {untried : List Choice} {table : Option StateTable}
    (logged : Logged task start count seen ⟨f :: below, table, meter, statistics⟩)
    (pending : f.pending = some (choice :: untried))
    (backtracks : counted.backtracks = statistics.backtracks)
    (nodes : counted.nodes = statistics.nodes) :
    Logged task start count seen
      ⟨Frame.fresh (f.remaining - 1) (f.state.after choice) ::
        ⟨f.remaining, f.state, choice, some untried⟩ :: below, table, used, counted⟩ := by
  let tried : Frame := ⟨f.remaining, f.state, choice, some untried⟩
  have same : Frame.opened (Frame.fresh (f.remaining - 1) (f.state.after choice) :: tried :: below) =
      Frame.opened (f :: below) := by
    rw [Frame.opened_cons_of_fresh rfl, Frame.opened_cons_of_pending (f := tried) rfl,
      Frame.opened_cons_of_pending pending]
    rfl
  have remains : f.remaining ≠ 0 := by
    refine (logged.within f.config (logged.opened _ ?_)).2
    rw [Frame.opened_cons_of_pending pending]
    exact List.mem_cons_self
  have allowed := logged.stacked.allowed f List.mem_cons_self _ pending
  rw [List.forall_mem_cons] at allowed
  constructor
  case stacked => exact (logged.stacked.pend choice allowed.2).push remains allowed.1
  case distinct => exact logged.distinct
  case within => exact logged.within
  case opened =>
    dsimp only
    rw [same]
    exact logged.opened
  case settled =>
    dsimp only
    rw [same]
    exact logged.settled
  case table => exact logged.table
  case backtracks =>
    dsimp only
    rw [same, backtracks]
    exact logged.backtracks
  case nodes =>
    have before := logged.nodes
    simp only [List.map_cons, List.sum_cons, Frame.debt, Frame.fresh, pending, List.length_cons]
      at before ⊢
    omega

/-- The table of a covered search loses nothing when the failure of the top frame is recorded. -/
theorem Logged.record? {table noted : Option StateTable}
    (logged : Logged task start count seen ⟨f :: below, table, meter, statistics⟩)
    (remembered : remember? table f = some noted) :
    ∃ t u, table = some t ∧ noted = some u ∧
      (∀ key steps, t.Knows key steps → u.Knows key steps) ∧
      u.Knows f.state.facts f.remaining ∧
      u.Spacious ((task.schema.reachable count start).image (·.facts)) := by
  obtain ⟨t, same, spacious⟩ := logged.table
  obtain rfl : table = some t := same
  obtain ⟨u, recorded, rfl⟩ := Option.map_eq_some_iff.mp remembered
  obtain ⟨choices, walk, length⟩ := logged.stacked.reached f List.mem_cons_self
  have member : f.state.facts ∈ (task.schema.reachable count start).image (·.facts) :=
    Finset.mem_image_of_mem _ (Schema.mem_reachable_iff.mpr ⟨choices, walk, by omega⟩)
  exact ⟨t, u, rfl, rfl, fun _ _ knows => knows.record? (spacious.isFull_eq member) recorded,
    DeadEndTable.knows_record? recorded, spacious.record? member recorded⟩

theorem Logged.lookUp {table touched : Option StateTable} {known : Bool}
    (logged : Logged task start count seen ⟨f :: below, table, meter, statistics⟩)
    (found : lookUp table f = (known, touched)) :
    ∃ t u, table = some t ∧ touched = some u ∧
      (∀ key steps, t.Knows key steps → u.Knows key steps) ∧
      (known = true ↔ t.Knows f.state.facts f.remaining) ∧
      u.Spacious ((task.schema.reachable count start).image (·.facts)) := by
  obtain ⟨t, same, spacious⟩ := logged.table
  obtain rfl : table = some t := same
  cases found
  exact ⟨t, _, rfl, rfl, fun _ _ knows => knows.isDeadEnd _ _, DeadEndTable.isDeadEnd_iff,
    spacious.isDeadEnd _ _⟩

/-- Each step keeps the invariant, with the configuration that it expands. -/
theorem Logged.step {m n : Machine} (logged : m.Logged task start count seen)
    (next : Machine.step task m = .going n) :
    n.Logged task start count (seen ++ (expands? task m).toList) := by
  cases move_of_step next with
  | @fail f below table noted meter used statistics fresh charged unmet last remembered =>
      have none : expands? task ⟨f :: below, table, meter, statistics⟩ = none := by
        simp [expands?, last]
      rw [none, Option.toList_none, List.append_nil]
      obtain ⟨t, u, rfl, rfl, grows, _, spacious⟩ := logged.record? remembered
      refine logged.pop grows ?_ spacious ?_ ?_ <;> simp [fresh, Counts.visit, Frame.debt]
  | @prune f below table touched meter used statistics fresh charged unmet remains known =>
      have none : expands? task ⟨f :: below, table, meter, statistics⟩ = none := by
        simp [expands?, known]
      rw [none, Option.toList_none, List.append_nil]
      obtain ⟨t, u, rfl, rfl, grows, _, spacious⟩ := logged.lookUp known
      refine logged.pop grows ?_ spacious ?_ ?_ <;> simp [fresh, Counts.visit, Frame.debt]
  | @descend f below table touched meter used statistics choice untried successor fresh charged
      unmet remains unknown candidates advanced =>
      have some : expands? task ⟨f :: below, table, meter, statistics⟩ = some f.config := by
        simp [expands?, fresh, charged, unmet, remains, unknown]
      rw [some, Option.toList_some, Schema.eq_after_of_advance advanced]
      obtain ⟨t, u, rfl, rfl, grows, known, spacious⟩ := logged.lookUp unknown
      have opened : Logged task start count (seen ++ [f.config])
          ⟨⟨f.remaining, f.state, choice, Option.some (task.schema.candidates f.state)⟩ :: below,
            Option.some u, used, statistics.visit (f.step task)⟩ :=
        logged.expand fresh remains (fun knows => nomatch known.mpr knows) grows spacious choice rfl
          rfl
      exact opened.push (congrArg Option.some candidates) rfl rfl
  | @retry f below table meter statistics choice untried successor pending advanced =>
      have none : expands? task ⟨f :: below, table, meter, statistics⟩ = none := by
        simp [expands?, pending]
      rw [none, Option.toList_none, List.append_nil, Schema.eq_after_of_advance advanced]
      exact logged.push pending rfl rfl
  | @close f below table noted meter statistics pending remembered =>
      have none : expands? task ⟨f :: below, table, meter, statistics⟩ = none := by
        simp [expands?, pending]
      rw [none, Option.toList_none, List.append_nil]
      obtain ⟨t, u, rfl, rfl, grows, noted, spacious⟩ := logged.record? remembered
      refine logged.pop grows (fun _ => noted) spacious ?_ ?_ <;> simp [pending, Frame.debt]

theorem Logged.distinct_next {m : Machine} (logged : m.Logged task start count seen) :
    (seen ++ (expands? task m).toList).Nodup ∧
      ∀ e ∈ seen ++ (expands? task m).toList,
        Frame.Reached task.schema start count e.1 e.2 ∧ e.2 ≠ 0 := by
  obtain ⟨frames, table, meter, statistics⟩ := m
  cases expanded : expands? task ⟨frames, table, meter, statistics⟩ with
  | none =>
      rw [Option.toList_none, List.append_nil]
      exact ⟨logged.distinct, logged.within⟩
  | some e =>
      rw [Option.toList_some]
      cases frames with
      | nil => cases expanded
      | cons f below =>
          simp only [expands?, Option.ite_none_right_eq_some, Option.some.injEq] at expanded
          obtain ⟨⟨fresh, _, _, remains, unknown⟩, rfl⟩ := expanded
          have found : Machine.lookUp table f = (false, (Machine.lookUp table f).2) :=
            Prod.ext unknown rfl
          obtain ⟨t, _, rfl, _, _, known, _⟩ := logged.lookUp found
          constructor
          · rw [List.nodup_append_comm]
            have new := logged.not_mem fresh (fun knows => nomatch known.mpr knows)
            exact List.nodup_cons.mpr ⟨new, logged.distinct⟩
          · refine List.forall_mem_append.mpr ⟨logged.within, ?_⟩
            rw [List.forall_mem_singleton]
            exact ⟨logged.stacked.reached f List.mem_cons_self, remains⟩

/-- What the counts of a search are when it comes to an outcome after some expansions. -/
structure Tallied (task : SearchTask) (expanded : Nat) (statistics : Statistics) : Prop where
  backtracks : statistics.backtracks ≤ expanded
  nodes : statistics.nodes ≤ 1 + task.width * expanded

/-- A step that halts the machine without a fault expands nothing. -/
theorem Logged.halt {m last : Machine} {ending : Ending}
    (logged : m.Logged task start count seen)
    (halts : Machine.step task m = .halted ending last)
    (sound : ∀ failure, ending ≠ .broken failure) (roomy : ending ≠ .narrow) :
    expands? task m = none ∧ Tallied task seen.length last.statistics := by
  have backtracks := logged.backtracks
  have nodes := logged.nodes
  cases move_of_halt halts with
  | exhaust => exact ⟨rfl, by omega, by omega⟩
  | refuse fresh charged =>
      refine ⟨by simp [expands?, charged], ?_, ?_⟩ <;> dsimp only at backtracks nodes ⊢ <;> omega
  | reach fresh charged holds =>
      refine ⟨by simp [expands?, holds], ?_, ?_⟩
      · dsimp only [Counts.visit] at backtracks ⊢
        omega
      · simp only [List.map_cons, List.sum_cons, Frame.debt, fresh] at nodes
        dsimp only [Counts.visit]
        omega
  | breach _ _ _ => exact absurd rfl (sound _)
  | lack _ _ => exact absurd rfl roomy

theorem expansions_of_going {m n : Machine} (next : Machine.step task m = .going n) :
    expansions task m = (expands? task m).toList ++ expansions task n := by
  rw [expansions]
  split
  · rename_i other same
    cases next.symm.trans same
    rfl
  · rename_i halted
    cases next.symm.trans halted

theorem expansions_of_halted {m n : Machine} {ending : Ending}
    (next : Machine.step task m = .halted ending n) :
    expansions task m = (expands? task m).toList := by
  rw [expansions]
  split
  · rename_i going
    cases next.symm.trans going
  · rfl

/-- In a whole run no configuration is expanded twice, and the expansions bound its counts. -/
theorem Logged.run {m : Machine} (logged : m.Logged task start count seen) :
    (seen ++ expansions task m).Nodup ∧
      (∀ e ∈ seen ++ expansions task m,
        Frame.Reached task.schema start count e.1 e.2 ∧ e.2 ≠ 0) ∧
      ((∀ failure, (Machine.run task m).1 ≠ .broken failure) →
        (Machine.run task m).1 ≠ .narrow →
          Tallied task (seen ++ expansions task m).length (Machine.run task m).2.statistics) := by
  induction m using Machine.run.induct task generalizing seen with
  | case1 m n next ih =>
      rw [expansions_of_going next, run_of_going next, ← List.append_assoc]
      exact ih (logged.step next)
  | case2 m ending last halts =>
      rw [expansions_of_halted halts, run_of_halted halts]
      obtain ⟨distinct, within⟩ := logged.distinct_next
      refine ⟨distinct, within, fun sound roomy => ?_⟩
      obtain ⟨none, tallied⟩ := logged.halt halts sound roomy
      rw [none, Option.toList_none, List.append_nil]
      exact tallied

end Logged

end Machine

namespace SearchSettings

structure HasPlaces (settings : SearchSettings) (count : Nat) : Prop where
  uses : settings.usesTable = true
  size : ∃ size, settings.tableSize.number? = some size ∧
    Number.isAtMost (.whole count) size = true

variable {settings : SearchSettings} {count : Nat}

theorem hasPlaces_of_whole {size : Int} (uses : settings.usesTable = true)
    (given : settings.tableSize = .whole size) (enough : count ≤ size) :
    settings.HasPlaces count :=
  ⟨uses, .whole size, by rw [given]; rfl, (Number.whole_le_whole _ _).mpr enough⟩

theorem HasPlaces.table (places : settings.HasPlaces count) (positive : 0 < count) :
    ∃ t, settings.table = .ok (some t) ∧ t.entries = ∅ ∧
      Number.isAtMost (.whole count) t.capacity = true := by
  obtain ⟨size, given, large⟩ := places.size
  have wide := Number.isAtMost_of_lt large (Int.natCast_pos.mpr positive)
  refine ⟨⟨size, ∅, 0, 0, 0⟩, ?_, rfl, large⟩
  simp [SearchSettings.table, places.uses, DeadEndTable.make, given, wide, Except.map]

end SearchSettings

namespace Machine

variable {task : SearchTask} {start : State} {count : Nat}

theorem logged_initial {t : StateTable} (empty : t.entries = ∅)
    (large : Number.isAtMost (.whole (task.schema.reachable count start).card) t.capacity = true)
    (meter : Meter) : (initial count start (some t) meter).Logged task start count [] where
  stacked :=
    { deeper := List.pairwise_singleton _ _
      reached := List.forall_mem_singleton.mpr ⟨[], .nil start, Nat.zero_add _⟩
      allowed := List.forall_mem_singleton.mpr (fun _ pending => nomatch pending) }
  distinct := List.nodup_nil
  within _ none := nomatch none
  opened _ none := nomatch none
  settled _ none := nomatch none
  table := ⟨t, rfl, DeadEndTable.vouches_of_empty empty, _, Finset.card_image_le, large⟩
  backtracks := rfl
  nodes := Int.le_refl 1

/-- There are only so many different configurations: states that can be reached, and steps. -/
theorem length_le_of_within {schema : Schema} {seen : List (State × Nat)} (distinct : seen.Nodup)
    (within : ∀ e ∈ seen, Frame.Reached schema start count e.1 e.2 ∧ e.2 ≠ 0) :
    seen.length ≤ (schema.reachable count start).card * count := by
  have member : ∀ e ∈ seen, e ∈ schema.reachable count start ×ˢ Finset.Icc 1 count := by
    intro e among
    obtain ⟨⟨choices, walk, length⟩, remains⟩ := within e among
    rw [Finset.mem_product, Finset.mem_Icc]
    exact ⟨Schema.mem_reachable_iff.mpr ⟨choices, walk, by omega⟩, by omega, by omega⟩
  calc seen.length
      ≤ (schema.reachable count start ×ˢ Finset.Icc 1 count).card :=
        length_le_card_of_nodup distinct member
    _ = (schema.reachable count start).card * count := by
        rw [Finset.card_product, Nat.card_Icc, Nat.add_sub_cancel]

end Machine

namespace Search

def expansions (schema : Schema) (settings : SearchSettings) (initial : State)
    (goal : OrderedSet Literal) (horizon startStep : Int) (meter : Meter) : List (State × Nat) :=
  if startStep < 1 ∨ horizon < startStep then []
  else
    match settings.table, settings.checkStart schema initial (.whole startStep) with
    | .ok table, .ok () =>
        Machine.expansions ⟨schema, settings.checked, goal, horizon.toNat⟩
          (.initial (horizon - startStep).toNat initial table meter.start)
    | _, _ => []

variable {schema : Schema} {settings : SearchSettings} {initial : State}
  {horizon startStep : Int}

/-- The log of a search whose table has a place for every state that can be reached in time. -/
theorem expansions_logged
    (places : settings.HasPlaces (schema.reachable (horizon - startStep).toNat initial).card)
    (goal : OrderedSet Literal) (meter : Meter) :
    (expansions schema settings initial goal horizon startStep meter).Nodup ∧
      (∀ e ∈ expansions schema settings initial goal horizon startStep meter,
        Frame.Reached schema initial (horizon - startStep).toNat e.1 e.2 ∧ e.2 ≠ 0) ∧
      ∀ outcome, (run schema settings initial goal horizon startStep meter).1 = .ok outcome →
        Machine.Tallied ⟨schema, settings.checked, goal, horizon.toNat⟩
          (expansions schema settings initial goal horizon startStep meter).length
          outcome.statistics := by
  by_cases order : startStep < 1 ∨ horizon < startStep
  · rw [expansions, run, if_pos order, if_pos order]
    refine ⟨List.nodup_nil, List.forall_mem_nil _, ?_⟩
    rintro outcome ⟨⟩
  · obtain ⟨t, made, empty, large⟩ := places.table (schema.reachable_card_pos _ _)
    cases passes : settings.checkStart schema initial (.whole startStep) with
    | error failure =>
        simp only [expansions, run, if_neg order, runFrom, made, passes]
        refine ⟨List.nodup_nil, List.forall_mem_nil _, ?_⟩
        rintro outcome ⟨⟩
    | ok passed =>
        have logged := @Machine.logged_initial
          ⟨schema, settings.checked, goal, horizon.toNat⟩ initial (horizon - startStep).toNat t
          empty large meter.start
        obtain ⟨distinct, within, tallied⟩ := logged.run
        rw [List.nil_append] at distinct within tallied
        simp only [expansions, if_neg order, run_eq order made passes, made, passes]
        refine ⟨distinct, within, fun outcome concluded => ?_⟩
        rw [statistics_of_conclude concluded]
        obtain ⟨backtracks, nodes⟩ := tallied
          (fun failure broken => by rw [broken] at concluded; cases concluded)
          (fun narrow => by rw [narrow] at concluded; cases concluded)
        exact ⟨backtracks, nodes⟩

/--
If its table has a place for every state that can be reached in time, a search
expands no configuration twice, whatever its meter allows.  So it gives up no
more configurations than there are, and makes no more visits than the first one
and those of the children of each of them.
-/
theorem expansions_nodup
    (places : settings.HasPlaces (schema.reachable (horizon - startStep).toNat initial).card)
    (goal : OrderedSet Literal) (meter : Meter) :
    (expansions schema settings initial goal horizon startStep meter).Nodup ∧
      ∀ outcome, (run schema settings initial goal horizon startStep meter).1 = .ok outcome →
        outcome.statistics.backtracks ≤
            (expansions schema settings initial goal horizon startStep meter).length ∧
          outcome.statistics.nodes ≤ 1 + (schema.actions.length + 1) *
            (expansions schema settings initial goal horizon startStep meter).length ∧
          outcome.statistics.backtracks ≤
            (schema.reachable (horizon - startStep).toNat initial).card * (horizon - startStep) ∧
          outcome.statistics.nodes ≤ 1 + (schema.actions.length + 1) *
            (schema.reachable (horizon - startStep).toNat initial).card *
              (horizon - startStep) := by
  obtain ⟨distinct, within, tallied⟩ := expansions_logged places goal meter
  refine ⟨distinct, fun outcome ended => ?_⟩
  obtain ⟨backtracks, nodes⟩ := tallied outcome ended
  have inOrder : ¬ (startStep < 1 ∨ horizon < startStep) := by
    intro order
    rw [run, if_pos order] at ended
    cases ended
  have steps : ((horizon - startStep).toNat : Int) = horizon - startStep := by omega
  have bound := Int.ofNat_le.mpr (Machine.length_le_of_within distinct within)
  rw [Int.natCast_mul, steps] at bound
  refine ⟨backtracks, nodes, backtracks.trans bound, ?_⟩
  have children := Int.mul_le_mul_of_nonneg_left bound
    (Int.natCast_nonneg (schema.actions.length + 1))
  rw [Int.mul_assoc]
  exact nodes.trans (Int.add_le_add_left children 1)

/-- The lone disc is on the first peg, in the hand or on the second peg: three places are enough. -/
theorem expansions_nodup_loneDisc :
    (loneDisc.reachable 4 loneDiscStart).card = 3 ∧
      (expansions loneDisc { tableSize := .whole 3 } loneDiscStart loneDiscGoal 5 1
        (Meter.fresh {} .still)).Nodup ∧
      ∃ outcome,
        (run loneDisc { tableSize := .whole 3 } loneDiscStart loneDiscGoal 5 1
          (Meter.fresh {} .still)).1 = .ok outcome ∧
        outcome.statistics.backtracks ≤ 3 * 4 ∧
        outcome.statistics.nodes ≤ 1 + (loneDisc.actions.length + 1) * 3 * 4 := by
  have three : (loneDisc.reachable 4 loneDiscStart).card = 3 := by decide +kernel
  have places : SearchSettings.HasPlaces { tableSize := .whole 3 }
      (loneDisc.reachable ((5 : Int) - 1).toNat loneDiscStart).card :=
    SearchSettings.hasPlaces_of_whole rfl rfl (Int.ofNat_le.mpr (Nat.le_of_eq three))
  obtain ⟨distinct, counts⟩ := expansions_nodup places loneDiscGoal (Meter.fresh {} .still)
  have room : SearchSettings.HasRoom { tableSize := .whole 3 } :=
    SearchSettings.hasRoom_of_whole (by decide : (1 : Int) ≤ 3) rfl
  have admits : SearchSettings.Admits { tableSize := .whole 3 } loneDisc loneDiscStart :=
    ⟨unhindered_loneDisc.admits.sameScope, unhindered_loneDisc.admits.sane⟩
  obtain ⟨outcome, ended, _⟩ := run_answers unhindered_loneDisc.accepted admits room loneDiscGoal
    (by decide : (1 : Int) ≤ 1) (by decide : (1 : Int) ≤ 5) (Meter.fresh {} .still)
  obtain ⟨_, _, backtracks, nodes⟩ := counts outcome ended
  have four : ((5 : Int) - 1).toNat = 4 := rfl
  rw [four, three] at backtracks nodes
  exact ⟨three, distinct, outcome, ended, backtracks, nodes⟩

end Search

end StackingPlanner
