import StackingPlanner.Proofs.Search.Leftmost
import StackingPlanner.Proofs.Search.Move
import StackingPlanner.Proofs.Search.Table

/-!
# The invariant of the search

The stack of a search is a path: every frame below the top was visited without
meeting the goal, its candidates before the one that is being tried have
failed, and that one led to the frame above.  The table of dead ends only
states failures.  Each step keeps this, under every budget, and so the way in
which the machine halts tells what the plain search finds.
-/

namespace StackingPlanner

namespace SearchTask

variable (task : SearchTask)

def plain? (steps : Nat) (s : State) : Option Steps :=
  task.schema.leftmost? task.goal.toList steps s

def Fails (s : State) (steps : Nat) : Prop := task.plain? steps s = none

/-- A table, if there is one, only states failures. -/
def Truthful (table : Option StateTable) : Prop :=
  ∀ t, table = some t →
    t.Vouches (fun facts steps => ∀ s : State, s.facts = facts → task.Fails s steps.toNat)

/-- A table, if there is one, has room and only states failures. -/
def Trusts (table : Option StateTable) : Prop :=
  ∀ t, table = some t → t.isNarrow = false ∧
    t.Vouches (fun facts steps => ∀ s : State, s.facts = facts → task.Fails s steps.toNat)

end SearchTask

/--
A frame that was visited without meeting the goal, with the candidates that it
has not tried yet; those before the one that was tried last have failed.
-/
structure Frame.Tries (task : SearchTask) (f : Frame) (untried : List Choice) : Prop where
  pending : f.pending = some untried
  remains : f.remaining ≠ 0
  unmet : f.state.satisfies task.goal.toList = false
  earlier : ∃ failed, task.schema.candidates f.state = failed ++ f.choice :: untried ∧
    ∀ choice ∈ failed, task.Fails (f.state.after choice) (f.remaining - 1)

/--
The frames below a state with a number of remaining steps: a path that leads to
it from the start, each frame by the choice that it tries.
-/
inductive Frame.LeadTo (task : SearchTask) (start : State) (count : Nat) :
    State → Nat → List Frame → Prop where
  | start : LeadTo task start count start count []
  | along {f : Frame} {below : List Frame} {untried : List Choice} {s : State} {steps : Nat}
      (tries : f.Tries task untried) (path : LeadTo task start count f.state f.remaining below)
      (reached : s = f.state.after f.choice) (fewer : steps = f.remaining - 1) :
      LeadTo task start count s steps (f :: below)

/-- The stack between two steps of a search. -/
inductive Frame.Explain (task : SearchTask) (start : State) (count : Nat) : List Frame → Prop where
  /-- Everything has failed. -/
  | exhausted (fails : task.Fails start count) : Explain task start count []
  /-- The top frame is fresh. -/
  | fresh {f : Frame} {below : List Frame} (pending : f.pending = none)
      (path : LeadTo task start count f.state f.remaining below) :
      Explain task start count (f :: below)
  /-- The choice that the top frame tried last has failed. -/
  | failed {f : Frame} {below : List Frame} {untried : List Choice} (tries : f.Tries task untried)
      (fails : task.Fails (f.state.after f.choice) (f.remaining - 1))
      (path : LeadTo task start count f.state f.remaining below) :
      Explain task start count (f :: below)

/-- The invariant of a search from a state with a number of steps, whatever room its table has. -/
structure Machine.Faithful (task : SearchTask) (start : State) (count : Nat) (m : Machine) :
    Prop where
  stack : Frame.Explain task start count m.frames
  table : task.Truthful m.table

/-- The invariant of a search whose table has room. -/
structure Machine.Sound (task : SearchTask) (start : State) (count : Nat) (m : Machine) :
    Prop where
  stack : Frame.Explain task start count m.frames
  table : task.Trusts m.table

/-- What the way in which a machine halts says about the plain search. -/
def Ending.Answers (task : SearchTask) (start : State) (count : Nat) : Ending → Prop
  | .reached timeline =>
      ∃ steps, task.plain? count start = some steps ∧ timeline = Timeline.ofSteps start steps
  | .exhausted => task.plain? count start = none
  | .refused _ => True
  | .broken _ => False
  | .narrow => False

variable {task : SearchTask} {start : State} {count : Nat}

namespace SearchTask

theorem fails_of_last {s : State} (unmet : s.satisfies task.goal.toList = false) :
    task.Fails s 0 :=
  Schema.leftmost?_zero_of_not unmet

theorem fails_of_candidates {s : State} {steps : Nat}
    (unmet : s.satisfies task.goal.toList = false) (remains : steps ≠ 0)
    (fails : ∀ choice ∈ task.schema.candidates s, task.Fails (s.after choice) (steps - 1)) :
    task.Fails s steps := by
  obtain ⟨fewer, rfl⟩ := Nat.exists_eq_succ_of_ne_zero remains
  exact (Schema.leftmost?_succ_of_not unmet).trans (Schema.tryEach_eq_none_iff.mpr fails)

theorem truthful_none : task.Truthful none := by
  rintro t ⟨⟩

theorem truthful_of_empty {table : Option StateTable}
    (new : ∀ t, table = some t → t.entries = ∅) : task.Truthful table :=
  fun t given => DeadEndTable.vouches_of_empty (new t given)

theorem trusts_of_empty {table : Option StateTable}
    (new : ∀ t, table = some t → t.entries = ∅ ∧ t.isNarrow = false) : task.Trusts table :=
  fun t given => ⟨(new t given).2, DeadEndTable.vouches_of_empty (new t given).1⟩

theorem Trusts.truthful {table : Option StateTable} (trusts : task.Trusts table) :
    task.Truthful table :=
  fun t given => (trusts t given).2

theorem Trusts.hasRoom {table : Option StateTable} (trusts : task.Trusts table) (f : Frame) :
    ∃ noted, Machine.remember? table f = some noted := by
  cases table with
  | none => exact ⟨none, rfl⟩
  | some t =>
      obtain ⟨u, recorded⟩ :=
        DeadEndTable.exists_record? (trusts t rfl).1 f.state.facts (f.remaining : Int)
      exact ⟨some u, congrArg (Option.map some) recorded⟩

/-- A truthful table stays truthful when a failure is remembered. -/
theorem Truthful.remember? {table noted : Option StateTable} (truthful : task.Truthful table)
    {f : Frame} (fails : task.Fails f.state f.remaining)
    (remembered : Machine.remember? table f = some noted) : task.Truthful noted := by
  cases table with
  | none =>
      cases remembered
      exact truthful_none
  | some t =>
      obtain ⟨u, recorded, rfl⟩ := Option.map_eq_some_iff.mp remembered
      rintro v ⟨⟩
      refine (truthful t rfl).record? (fun s same => ?_) recorded
      exact Schema.leftmost?_none_of_le fails same (Nat.le_of_eq (Int.toNat_natCast _))

theorem Truthful.lookUp {table : Option StateTable} (truthful : task.Truthful table) (f : Frame) :
    task.Truthful (Machine.lookUp table f).2 := by
  cases table with
  | none => exact truthful_none
  | some t =>
      intro u same
      obtain rfl : (t.isDeadEnd f.state.facts (f.remaining : Int)).2 = u := Option.some.inj same
      exact (truthful t rfl).isDeadEnd _ _

theorem Truthful.fails_of_lookUp {table : Option StateTable} (truthful : task.Truthful table)
    {f : Frame} (known : (Machine.lookUp table f).1 = true) : task.Fails f.state f.remaining := by
  cases table with
  | none => cases known
  | some t =>
      obtain ⟨recorded, fails, covers⟩ := (truthful t rfl).of_isDeadEnd known
      refine Schema.leftmost?_none_of_le (fails f.state rfl) rfl ?_
      omega

end SearchTask

namespace Frame

theorem Tries.fails {f : Frame} (tries : f.Tries task [])
    (last : task.Fails (f.state.after f.choice) (f.remaining - 1)) :
    task.Fails f.state f.remaining := by
  obtain ⟨failed, candidates, fails⟩ := tries.earlier
  refine SearchTask.fails_of_candidates tries.unmet tries.remains (fun choice member => ?_)
  rw [candidates] at member
  rcases List.mem_append.mp member with earlier | here
  · exact fails choice earlier
  · cases List.mem_singleton.mp here
    exact last

/-- What the plain search finds by the choice that a frame tries is what it finds there. -/
theorem Tries.found {f : Frame} {untried : List Choice} {steps : Steps}
    (tries : f.Tries task untried)
    (found : task.plain? (f.remaining - 1) (f.state.after f.choice) = some steps) :
    task.plain? f.remaining f.state = some ((f.choice, f.state.after f.choice) :: steps) := by
  obtain ⟨fewer, same⟩ := Nat.exists_eq_succ_of_ne_zero tries.remains
  obtain ⟨failed, candidates, fails⟩ := tries.earlier
  rw [same, Nat.succ_sub_one] at found fails
  rw [same, SearchTask.plain?, Schema.leftmost?_succ_of_not tries.unmet, candidates]
  exact (Schema.tryEach_append_of_none fails).trans (Schema.tryEach_cons_of_some found)

theorem Tries.allowed {f : Frame} {untried : List Choice} (tries : f.Tries task untried) :
    task.schema.Allows f.state f.choice := by
  obtain ⟨failed, candidates, _⟩ := tries.earlier
  exact Schema.mem_candidates_iff.mp (by simp [candidates])

theorem LeadTo.walk {s : State} {steps : Nat} {below : List Frame}
    (path : LeadTo task start count s steps below) :
    ∃ choices, task.schema.Walk start choices s := by
  induction path with
  | start => exact ⟨[], .nil start⟩
  | along tries _ reached _ ih =>
      obtain ⟨choices, walk⟩ := ih
      exact ⟨_, reached ▸ walk.snoc tries.allowed⟩

/-- At the end of a path no choice is refused, if none is on a walk from the start. -/
theorem LeadTo.advance_eq (smooth : task.schema.Smooth task.checked start) {s : State}
    {steps : Nat} {below : List Frame} (path : LeadTo task start count s steps below)
    {choice : Choice} (allowed : task.schema.Allows s choice) (step : Value) :
    task.schema.advance task.checked s choice step = .ok (s.after choice) := by
  obtain ⟨choices, walk⟩ := path.walk
  exact smooth choices s walk choice allowed step

/-- When the state at the end of a path fails, the path explains what is left. -/
theorem LeadTo.explain {s : State} {steps : Nat} {below : List Frame}
    (path : LeadTo task start count s steps below) (fails : task.Fails s steps) :
    Explain task start count below := by
  cases path with
  | start => exact .exhausted fails
  | along tries path reached fewer =>
      rw [reached, fewer] at fails
      exact .failed tries fails path

/-- When the plain search succeeds at the end of a path, the path begins what it finds. -/
theorem LeadTo.found {s : State} {steps : Nat} {below : List Frame} {onward : Steps}
    (path : LeadTo task start count s steps below) (found : task.plain? steps s = some onward) :
    ∃ whole, task.plain? count start = some whole ∧
      Machine.unwind s onward below = Timeline.ofSteps start whole := by
  induction path generalizing onward with
  | start => exact ⟨onward, found, rfl⟩
  | @along f below untried s steps tries _ reached fewer ih =>
      rw [reached, fewer] at found
      rw [reached]
      exact ih (tries.found found)

/-- Trying a candidate, after the ones before it have failed, makes the path longer. -/
theorem LeadTo.advance {f : Frame} {below : List Frame} {failed untried : List Choice}
    {choice : Choice} (path : LeadTo task start count f.state f.remaining below)
    (remains : f.remaining ≠ 0) (unmet : f.state.satisfies task.goal.toList = false)
    (candidates : task.schema.candidates f.state = failed ++ choice :: untried)
    (fails : ∀ other ∈ failed, task.Fails (f.state.after other) (f.remaining - 1)) :
    Explain task start count (Frame.fresh (f.remaining - 1) (f.state.after choice) ::
      ⟨f.remaining, f.state, choice, some untried⟩ :: below) := by
  have tries : Frame.Tries task ⟨f.remaining, f.state, choice, some untried⟩ untried :=
    ⟨rfl, remains, unmet, failed, candidates, fails⟩
  exact .fresh rfl (.along tries path rfl rfl)

end Frame

namespace Machine

theorem faithful_initial {table : Option StateTable} (truthful : task.Truthful table)
    (meter : Meter) : (initial count start table meter).Faithful task start count :=
  ⟨.fresh rfl .start, truthful⟩

theorem sound_initial {table : Option StateTable} (trusts : task.Trusts table) (meter : Meter) :
    (initial count start table meter).Sound task start count :=
  ⟨.fresh rfl .start, trusts⟩

theorem Sound.faithful {m : Machine} (sound : m.Sound task start count) :
    m.Faithful task start count :=
  ⟨sound.stack, sound.table.truthful⟩

theorem Faithful.path {f : Frame} {below : List Frame} {table : Option StateTable} {meter : Meter}
    {statistics : Statistics}
    (faithful : Faithful task start count ⟨f :: below, table, meter, statistics⟩) :
    Frame.LeadTo task start count f.state f.remaining below := by
  cases faithful.stack with
  | fresh _ path => exact path
  | failed _ _ path => exact path

theorem Faithful.earlier {f : Frame} {below : List Frame} {table : Option StateTable}
    {meter : Meter} {statistics : Statistics} {untried : List Choice}
    (faithful : Faithful task start count ⟨f :: below, table, meter, statistics⟩)
    (pending : f.pending = some untried) :
    f.Tries task untried ∧ task.Fails (f.state.after f.choice) (f.remaining - 1) := by
  cases faithful.stack with
  | fresh none _ =>
      rw [none] at pending
      cases pending
  | failed tries fails _ =>
      cases Option.some.inj (tries.pending.symm.trans pending)
      exact ⟨tries, fails⟩

/-- Each move that does not halt a machine keeps it faithful. -/
theorem Faithful.next {m n : Machine} (faithful : m.Faithful task start count)
    (move : Move task m (.going n)) : n.Faithful task start count := by
  cases move with
  | @fail f _ _ _ _ _ _ _ _ unmet last remembered =>
      have fails : task.Fails f.state f.remaining := by
        rw [last]
        exact SearchTask.fails_of_last unmet
      exact ⟨faithful.path.explain fails, faithful.table.remember? fails remembered⟩
  | @prune f _ _ touched _ _ _ _ _ _ _ known =>
      have fails := faithful.table.fails_of_lookUp (congrArg Prod.fst known)
      have truthful := faithful.table.lookUp f
      rw [known] at truthful
      exact ⟨faithful.path.explain fails, truthful⟩
  | @descend f _ _ touched _ _ _ choice _ _ _ _ unmet remains unknown candidates advanced =>
      have truthful := faithful.table.lookUp f
      rw [unknown] at truthful
      rw [Schema.eq_after_of_advance advanced]
      -- No candidate comes before the first one.
      rw [← List.nil_append (choice :: _)] at candidates
      exact ⟨faithful.path.advance remains unmet candidates (by simp), truthful⟩
  | @retry f _ _ _ _ choice untried _ pending advanced =>
      obtain ⟨tries, fails⟩ := faithful.earlier pending
      obtain ⟨failed, candidates, earlier⟩ := tries.earlier
      -- The candidate that was tried last joins the ones that failed.
      rw [List.append_cons] at candidates
      rw [Schema.eq_after_of_advance advanced]
      refine ⟨faithful.path.advance tries.remains tries.unmet candidates ?_, faithful.table⟩
      intro other member
      rcases List.mem_append.mp member with before | here
      · exact earlier other before
      · cases List.mem_singleton.mp here
        exact fails
  | close pending remembered =>
      obtain ⟨tries, last⟩ := faithful.earlier pending
      have fails := tries.fails last
      exact ⟨faithful.path.explain fails, faithful.table.remember? fails remembered⟩

/-! ## Tables that have room -/

theorem isNarrow_remember? {table noted : Option StateTable} {f : Frame}
    (room : ∀ t, table = some t → t.isNarrow = false)
    (remembered : remember? table f = some noted) : ∀ t, noted = some t → t.isNarrow = false := by
  cases table with
  | none =>
      cases remembered
      exact room
  | some t =>
      obtain ⟨u, recorded, rfl⟩ := Option.map_eq_some_iff.mp remembered
      rintro v ⟨⟩
      rw [DeadEndTable.isNarrow, DeadEndTable.capacity_record? recorded]
      exact room t rfl

theorem isNarrow_lookUp {table touched : Option StateTable} {f : Frame} {known : Bool}
    (room : ∀ t, table = some t → t.isNarrow = false)
    (found : lookUp table f = (known, touched)) : ∀ t, touched = some t → t.isNarrow = false := by
  cases table with
  | none =>
      cases found
      exact room
  | some t =>
      intro u same
      have last : (t.isDeadEnd f.state.facts (f.remaining : Int)).2 = u :=
        Option.some.inj ((congrArg Prod.snd found).trans same)
      rw [← last, DeadEndTable.isNarrow, DeadEndTable.capacity_isDeadEnd]
      exact room t rfl

theorem isNarrow_next {m n : Machine} (room : ∀ t, m.table = some t → t.isNarrow = false)
    (move : Move task m (.going n)) : ∀ t, n.table = some t → t.isNarrow = false := by
  cases move with
  | fail _ _ _ _ remembered | close _ remembered => exact isNarrow_remember? room remembered
  | prune _ _ _ _ found | descend _ _ _ _ found _ _ => exact isNarrow_lookUp room found
  | retry _ _ => exact room

theorem Sound.next {m n : Machine} (sound : m.Sound task start count)
    (move : Move task m (.going n)) : n.Sound task start count := by
  have faithful := sound.faithful.next move
  have room := isNarrow_next (fun t given => (sound.table t given).1) move
  exact ⟨faithful.stack, fun t given => ⟨room t given, faithful.table t given⟩⟩

theorem Sound.path {f : Frame} {below : List Frame} {table : Option StateTable} {meter : Meter}
    {statistics : Statistics}
    (sound : Sound task start count ⟨f :: below, table, meter, statistics⟩) :
    Frame.LeadTo task start count f.state f.remaining below :=
  sound.faithful.path

/-- Each move keeps a machine sound, and when it halts the machine answers. -/
theorem Sound.move (smooth : task.schema.Smooth task.checked start) {m : Machine}
    {progress : Progress} (sound : m.Sound task start count) (move : Move task m progress) :
    match progress with
    | .going n => n.Sound task start count
    | .halted ending _ => ending.Answers task start count := by
  cases progress with
  | going n => exact sound.next move
  | halted ending last =>
      cases move with
      | exhaust =>
          cases sound.stack with
          | exhausted fails => exact fails
      | refuse => trivial
      | reach _ _ holds => exact sound.path.found (Schema.leftmost?_of_goal holds _)
      | @breach f _ _ _ _ choice failure _ tried _ refused =>
          have allowed : task.schema.Allows f.state choice := by
            rw [← Schema.mem_candidates_iff]
            rcases tried with candidate | ⟨untried, pending⟩
            · exact candidate
            · obtain ⟨failed, candidates, _⟩ := (sound.faithful.earlier pending).1.earlier
              simp [candidates]
          cases refused.symm.trans (sound.path.advance_eq smooth allowed _)
      | @lack f _ _ _ _ _ _ full =>
          obtain ⟨noted, remembered⟩ := sound.table.hasRoom f
          cases full.symm.trans remembered

end Machine

end StackingPlanner
