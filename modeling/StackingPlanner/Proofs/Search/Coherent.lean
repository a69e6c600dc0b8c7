import StackingPlanner.Proofs.Search.Trace

/-!
# The stack at each turn of a search

At each turn the stack is the path from the start to the state that the search
looks at, one frame for each step, and each frame leads to the one above it by
the choice that it tries.  From no choice that was tried before in one of them
can the goal still be reached, nor from a state in the table in the steps that
the table knows it to fail for.  A step that is refused by the budget leaves
the stack and the table as they are.
-/

namespace StackingPlanner

namespace SearchTask

/-- Whatever is done from a state in at most so many steps, the goal does not hold after it. -/
def Hopeless (task : SearchTask) (s : State) (steps : Int) : Prop :=
  ∀ choices last, task.schema.Walk s choices last → (choices.length : Int) ≤ steps →
    last.satisfies task.goal.toList = false

theorem Fails.hopeless {task : SearchTask} {s : State} {steps : Nat} {within : Int}
    (fails : task.Fails s steps) (most : within ≤ steps) : task.Hopeless s within := by
  intro choices last walk short
  by_contra holds
  have reaches : task.schema.Reaches task.goal.toList s choices.length :=
    ⟨choices, last, rfl, walk, Bool.eq_true_of_not_eq_false holds⟩
  exact Schema.leftmost?_eq_none_iff.mp fails (reaches.mono (by omega))

end SearchTask

/-- A frame holds the state to which the choice of another one leads. -/
def Frame.Succeeds (task : SearchTask) (f g : Frame) : Prop :=
  task.schema.advance task.checked g.state g.choice (.whole (g.step task)) = .ok f.state

/-- What holds of the machine at each turn of a search that starts in a state at some step. -/
structure Machine.Coherent (task : SearchTask) (startStep : Int) (start : State) (m : Machine) :
    Prop where
  /-- From the bottom of the stack to its top the steps of the frames count up from the first. -/
  steps : m.frames.reverse.map (fun f => f.step task) =
    (List.range m.frames.length).map (fun i : Nat => startStep + i)
  within : ∀ f ∈ m.frames, f.step task ≤ task.horizon
  bottom : ∀ f, m.frames.getLast? = some f → f.state = start
  linked : m.frames.IsChain (Frame.Succeeds task)
  /-- Below the top every frame was visited without meeting the goal. -/
  opened : ∀ f ∈ m.frames.tail,
    f.pending.isSome = true ∧ f.state.satisfies task.goal.toList = false
  /-- What was tried before the last choice of a frame has led to states without hope. -/
  tried : ∀ f ∈ m.frames, ∀ untried, f.pending = some untried →
    ∃ earlier, task.schema.candidates f.state = earlier ++ f.choice :: untried ∧
      ∀ choice ∈ earlier, ∃ s,
        task.schema.advance task.checked f.state choice (.whole (f.step task)) = .ok s ∧
          task.Hopeless s (task.horizon - (f.step task + 1))
  /-- The table is right about the states that it holds. -/
  table : ∀ t, m.table = some t → ∀ facts entry, t.entries[facts]? = some entry →
    ∀ s : State, s.facts = facts → task.Hopeless s entry.remaining

namespace Frame

/-- Of the candidates of a frame those that were tried were not refused. -/
def Advanced (task : SearchTask) (f : Frame) : Prop :=
  ∀ untried, f.pending = some untried →
    ∃ tried, task.schema.candidates f.state = tried ++ untried ∧
      ∀ choice ∈ tried, task.schema.advance task.checked f.state choice (.whole (f.step task)) =
        .ok (f.state.after choice)

variable {task : SearchTask} {start : State} {count : Nat} {f g : Frame} {below : List Frame}

theorem advanced_of_fresh (fresh : f.pending = none) : f.Advanced task := by
  intro untried pending
  cases fresh.symm.trans pending

/-! ## The frames of a path -/

/-- The frames of a path and the steps that remain after it are as many as the steps at first. -/
theorem LeadTo.length_add {s : State} {steps : Nat}
    (path : LeadTo task start count s steps below) : below.length + steps = count := by
  induction path with
  | start => exact Nat.zero_add count
  | along tries _ _ fewer ih =>
      have remains := tries.remains
      rw [List.length_cons]
      omega

theorem LeadTo.exists_tries {s : State} {steps : Nat}
    (path : LeadTo task start count s steps below) :
    ∀ f ∈ below, ∃ untried, f.Tries task untried := by
  induction path with
  | start => exact fun _ none => absurd none List.not_mem_nil
  | along tries _ _ _ ih => exact List.forall_mem_cons.mpr ⟨⟨_, tries⟩, ih⟩

section Stack

-- The top frame `f` of the stack is at the end of the path through the frames below it.
variable (path : LeadTo task start count f.state f.remaining below)

include path

theorem LeadTo.state_bottom (bottom : (f :: below).getLast? = some g) : g.state = start := by
  induction below generalizing f with
  | nil =>
      cases bottom
      cases path
      rfl
  | cons next below ih =>
      cases path with
      | along _ path _ _ => exact ih path (List.getLast?_cons_cons.symm.trans bottom)

theorem LeadTo.step_eq {startStep : Int} (total : (task.horizon : Int) = startStep + count) :
    f.step task = startStep + below.length := by
  have length := path.length_add
  rw [step]
  omega

theorem LeadTo.map_step {startStep : Int} (total : (task.horizon : Int) = startStep + count) :
    (f :: below).reverse.map (fun f => f.step task) =
      (List.range (f :: below).length).map (fun i : Nat => startStep + i) := by
  have here := path.step_eq total
  induction below generalizing f with
  | nil => simpa using here
  | cons next below ih =>
      cases path with
      | along _ path _ _ =>
          have deeper := ih path (path.step_eq total)
          rw [List.reverse_cons, List.map_append, deeper, List.map_singleton, here,
            List.length_cons (a := f), List.range_succ, List.map_append, List.map_singleton]

end Stack

/-! ## The choices that were tried -/

/-- No candidate of a frame was refused up to the last that was tried; those before it failed. -/
theorem Tries.exists_earlier {untried : List Choice} (tries : f.Tries task untried)
    (advanced : f.Advanced task) :
    ∃ earlier, task.schema.candidates f.state = earlier ++ f.choice :: untried ∧
      task.schema.advance task.checked f.state f.choice (.whole (f.step task)) =
        .ok (f.state.after f.choice) ∧
      ∀ choice ∈ earlier,
        task.schema.advance task.checked f.state choice (.whole (f.step task)) =
            .ok (f.state.after choice) ∧
          task.Fails (f.state.after choice) (f.remaining - 1) := by
  obtain ⟨failed, candidates, fails⟩ := tries.earlier
  obtain ⟨tried, same, succeeded⟩ := advanced untried tries.pending
  -- What was tried are the choices that have failed and the last one.
  obtain rfl : failed ++ [f.choice] = tried := by
    rw [candidates, ← List.singleton_append, ← List.append_assoc] at same
    exact List.append_cancel_right same
  refine ⟨failed, candidates, succeeded _ (by simp), fun choice member => ?_⟩
  exact ⟨succeeded choice (List.mem_append_left _ member), fails choice member⟩

/-- What was tried before the last choice of a frame has led to states without hope. -/
theorem Tries.earlier_hopeless {untried : List Choice} (tries : f.Tries task untried)
    (advanced : f.Advanced task) :
    ∃ earlier, task.schema.candidates f.state = earlier ++ f.choice :: untried ∧
      ∀ choice ∈ earlier, ∃ s,
        task.schema.advance task.checked f.state choice (.whole (f.step task)) = .ok s ∧
          task.Hopeless s (task.horizon - (f.step task + 1)) := by
  obtain ⟨earlier, candidates, -, failed⟩ := tries.exists_earlier advanced
  refine ⟨earlier, candidates, fun choice before => ?_⟩
  obtain ⟨succeeded, fails⟩ := failed choice before
  refine ⟨_, succeeded, fails.hopeless ?_⟩
  have remains := tries.remains
  rw [step]
  omega

/-- On a stack each frame holds the state to which the frame below it leads. -/
theorem LeadTo.isChain (path : LeadTo task start count f.state f.remaining below)
    (advanced : ∀ g ∈ below, g.Advanced task) : (f :: below).IsChain (Succeeds task) := by
  induction below generalizing f with
  | nil => exact List.isChain_singleton f
  | cons next below ih =>
      obtain ⟨here, deeper⟩ := List.forall_mem_cons.mp advanced
      cases path with
      | along tries path reached _ =>
          obtain ⟨_, _, succeeded, _⟩ := tries.exists_earlier here
          refine List.isChain_cons.mpr ⟨?_, ih path deeper⟩
          rintro g ⟨⟩
          rw [Succeeds, succeeded, reached]

theorem Tries.of_pending {untried other : List Choice} (tries : f.Tries task untried)
    (pending : f.pending = some other) : f.Tries task other := by
  cases Option.some.inj (tries.pending.symm.trans pending)
  exact tries

theorem LeadTo.tries_of_pending {s : State} {steps : Nat}
    (path : LeadTo task start count s steps below) :
    ∀ f ∈ below, ∀ untried, f.pending = some untried → f.Tries task untried := by
  intro f member untried pending
  obtain ⟨_, tries⟩ := path.exists_tries f member
  exact tries.of_pending pending

theorem Explain.tries {frames : List Frame} (explain : Explain task start count frames) :
    ∀ f ∈ frames, ∀ untried, f.pending = some untried → f.Tries task untried := by
  cases explain with
  | exhausted => exact nofun
  | fresh none path =>
      refine List.forall_mem_cons.mpr ⟨fun untried pending => ?_, path.tries_of_pending⟩
      cases none.symm.trans pending
  | failed tries _ path =>
      exact List.forall_mem_cons.mpr ⟨fun _ => tries.of_pending, path.tries_of_pending⟩

theorem advanced_of_tried {tried untried : List Choice} {choice : Choice} {successor : State}
    (candidates : task.schema.candidates f.state = tried ++ choice :: untried)
    (succeeded : ∀ other ∈ tried,
      task.schema.advance task.checked f.state other (.whole (f.step task)) =
        .ok (f.state.after other))
    (advanced : task.schema.advance task.checked f.state choice (.whole (f.step task)) =
      .ok successor) :
    Advanced task ⟨f.remaining, f.state, choice, some untried⟩ := by
  rintro _ ⟨⟩
  refine ⟨tried ++ [choice], by simp [candidates], fun other member => ?_⟩
  rcases List.mem_append.mp member with earlier | last
  · exact succeeded other earlier
  · cases List.mem_singleton.mp last
    rw [← Schema.eq_after_of_advance advanced]
    exact advanced

end Frame

namespace Machine

variable {task : SearchTask} {start : State} {count : Nat} {m n : Machine}

/-- No move that does not halt a machine tries a choice that is refused. -/
theorem advanced_next (advanced : ∀ f ∈ m.frames, f.Advanced task)
    (move : Move task m (.going n)) : ∀ f ∈ n.frames, f.Advanced task := by
  cases move with
  | fail | prune | close => exact (List.forall_mem_cons.mp advanced).2
  | descend _ _ _ _ _ candidates succeeded =>
      -- No candidate comes before the first one.
      rw [← List.nil_append (_ :: _)] at candidates
      have tried := Frame.advanced_of_tried candidates nofun succeeded
      exact List.forall_mem_cons.mpr ⟨Frame.advanced_of_fresh rfl,
        List.forall_mem_cons.mpr ⟨tried, (List.forall_mem_cons.mp advanced).2⟩⟩
  | retry pending succeeded =>
      obtain ⟨here, deeper⟩ := List.forall_mem_cons.mp advanced
      obtain ⟨before, candidates, earlier⟩ := here _ pending
      have tried := Frame.advanced_of_tried candidates earlier succeeded
      exact List.forall_mem_cons.mpr ⟨Frame.advanced_of_fresh rfl,
        List.forall_mem_cons.mpr ⟨tried, deeper⟩⟩

/-- What a search keeps from turn to turn makes the machine coherent. -/
theorem Faithful.coherent {startStep : Int} (faithful : m.Faithful task start count)
    (advanced : ∀ f ∈ m.frames, f.Advanced task)
    (total : (task.horizon : Int) = startStep + count) : m.Coherent task startStep start := by
  have tried := fun f member untried pending =>
    (faithful.stack.tries f member untried pending).earlier_hopeless (advanced f member)
  have table := fun t given facts entry found s same =>
    (faithful.table t given facts entry found s same).hopeless (Int.self_le_toNat _)
  obtain ⟨frames, _, _, _⟩ := m
  cases frames with
  | nil => exact ⟨rfl, nofun, nofun, List.isChain_nil, nofun, tried, table⟩
  | cons f below =>
      have path := faithful.path
      refine ⟨path.map_step total, fun g _ => Frame.step_le_horizon task g,
        fun _ => path.state_bottom, path.isChain (List.forall_mem_cons.mp advanced).2,
        fun g deeper => ?_, tried, table⟩
      obtain ⟨untried, tries⟩ := path.exists_tries g deeper
      exact ⟨Option.isSome_iff_exists.mpr ⟨untried, tries.pending⟩, tries.unmet⟩

theorem Coherent.refused {startStep : Int} {reason : Refusal}
    (coherent : m.Coherent task startStep start)
    (halts : step task m = .halted (.refused reason) n) : n.Coherent task startStep start := by
  cases move_of_halt halts with
  | refuse _ _ => exact ⟨coherent.steps, coherent.within, coherent.bottom, coherent.linked,
      coherent.opened, coherent.tried, coherent.table⟩

/-- A machine is coherent at each of its turns. -/
theorem coherent_trace (task : SearchTask) {startStep : Int}
    (total : (task.horizon : Int) = startStep + count) (start : State)
    {table : Option StateTable} (empty : ∀ t, table = some t → t.entries = ∅) (meter : Meter) :
    ∀ m ∈ trace task (initial count start table meter), m.Coherent task startStep start := by
  have faithful : ∀ m ∈ trace task (initial count start table meter),
      m.Faithful task start count :=
    forall_mem_trace (fun _ _ faithful next => faithful.next (move_of_step next))
      (faithful_initial (SearchTask.truthful_of_empty empty) meter)
  have advanced : ∀ m ∈ trace task (initial count start table meter),
      ∀ f ∈ m.frames, f.Advanced task :=
    forall_mem_trace (fun _ _ advanced next => advanced_next advanced (move_of_step next))
      (List.forall_mem_singleton.mpr (Frame.advanced_of_fresh rfl))
  exact fun m member => (faithful m member).coherent (advanced m member) total

end Machine

namespace Search

/--
At each turn of a search, whatever its budget and its table, the machine is
coherent.  A search that begins takes its turns one after another up to the
one at which it halts, and if its budget halts it, it leaves a coherent machine.
-/
theorem trace_coherent (schema : Schema) (settings : SearchSettings) (initial : State)
    (goal : OrderedSet Literal) (horizon startStep : Int) (meter : Meter) :
    (∀ m ∈ trace schema settings initial goal horizon startStep meter,
        m.Coherent ⟨schema, settings.checked, goal, horizon.toNat⟩ startStep initial) ∧
      ∀ table, Begins schema settings initial horizon startStep table →
        ∃ ending halted,
          Machine.IsRun ⟨schema, settings.checked, goal, horizon.toNat⟩
            (.initial (horizon - startStep).toNat initial table meter.start)
            (trace schema settings initial goal horizon startStep meter) ending halted ∧
          run schema settings initial goal horizon startStep meter =
            (conclude settings startStep ending halted.statistics, halted.meter) ∧
          ∀ reason, ending = .refused reason →
            halted.Coherent ⟨schema, settings.checked, goal, horizon.toNat⟩ startStep initial := by
  have coherent : ∀ m ∈ trace schema settings initial goal horizon startStep meter,
      m.Coherent ⟨schema, settings.checked, goal, horizon.toNat⟩ startStep initial := by
    intro m member
    obtain ⟨table, begins⟩ := exists_begins_of_mem_trace member
    have first := begins.first
    have order := begins.order
    have total : (horizon.toNat : Int) = startStep + (horizon - startStep).toNat := by omega
    rw [begins.trace_eq] at member
    exact Machine.coherent_trace ⟨schema, settings.checked, goal, horizon.toNat⟩ total initial
      (fun t given => settings.entries_of_table (given ▸ begins.made)) meter.start m member
  refine ⟨coherent, fun table begins => ?_⟩
  obtain ⟨ending, halted, isRun, result⟩ := begins.exists_isRun goal meter
  refine ⟨ending, halted, isRun, result, ?_⟩
  rintro reason rfl
  obtain ⟨last, final, halts⟩ := isRun.halts
  exact (coherent last (List.mem_of_getLast? final)).refused halts

/-- The search for a way of the lone disc begins, and it is coherent from its first turn on. -/
theorem trace_coherent_loneDisc :
    ∃ table, Begins loneDisc {} loneDiscStart 5 1 table ∧
      ∃ ending halted,
        Machine.IsRun ⟨loneDisc, true, loneDiscGoal, 5⟩
          (.initial 4 loneDiscStart table (Meter.fresh {} .still).start)
          (trace loneDisc {} loneDiscStart loneDiscGoal 5 1 (Meter.fresh {} .still))
          ending halted ∧
        ∀ m ∈ trace loneDisc {} loneDiscStart loneDiscGoal 5 1 (Meter.fresh {} .still),
          m.Coherent ⟨loneDisc, true, loneDiscGoal, 5⟩ 1 loneDiscStart := by
  obtain ⟨table, made, -⟩ := unhindered_loneDisc.room.roomy
  have begins : Begins loneDisc {} loneDiscStart 5 1 table :=
    unhindered_loneDisc.begins (by decide) (by decide) made
  obtain ⟨coherent, turns⟩ :=
    trace_coherent loneDisc {} loneDiscStart loneDiscGoal 5 1 (Meter.fresh {} .still)
  obtain ⟨ending, halted, isRun, -, -⟩ := turns table begins
  exact ⟨table, begins, ending, halted, isRun, coherent⟩

end Search

end StackingPlanner
