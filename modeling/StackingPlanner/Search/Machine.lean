import StackingPlanner.Plan
import StackingPlanner.Search.Budget
import StackingPlanner.Search.DeadEndTable
import StackingPlanner.Search.Statistics

/-!
# The search machine

The search goes depth first and tries the choices of a state in order, nothing
first.  It keeps a stack of frames, one for each step on the way to the state
that it looks at.  Each step of the machine visits a new frame, tries one more
choice of a frame or gives a frame up.  A weight that falls with every step
shows that the machine halts.
-/

namespace StackingPlanner

/-- What is searched: choices that lead to the goal by the last step. -/
structure SearchTask where
  schema : Schema
  /-- Whether every transition is checked. -/
  checked : Bool
  goal : OrderedSet Literal
  /-- The last step. -/
  horizon : Nat

/-- A state on the way, with the number of steps that remain after it. -/
structure Frame where
  remaining : Nat
  state : State
  /-- The choice that was tried last. -/
  choice : Choice := none
  /-- The choices that were not tried yet, once the frame was visited. -/
  pending : Option (List Choice) := none

inductive Ending where
  /-- The goal holds in the last state of a timeline. -/
  | reached (timeline : Timeline)
  /-- Every choice failed. -/
  | exhausted
  /-- A visit was refused. -/
  | refused (reason : Refusal)
  /-- A transition failed its checks. -/
  | broken (failure : Failure)
  /-- The table has no room for the first dead end. -/
  | narrow

abbrev StateTable := DeadEndTable (OrderedSet Fluent) Int

/-- The stack of a search, the top frame first, and what it has used and found. -/
structure Machine where
  frames : List Frame
  table : Option StateTable
  meter : Meter
  statistics : Statistics

inductive Progress where
  | going (m : Machine)
  | halted (ending : Ending) (m : Machine)

namespace Frame

def fresh (remaining : Nat) (state : State) : Frame := { remaining, state }

def step (task : SearchTask) (f : Frame) : Int := task.horizon - f.remaining

/--
The weight of a state that was not visited yet: one for itself and for each
choice one more than the weight of the state that follows.
-/
def freshWeight (choices : Nat) : Nat → Nat
  | 0 => 1
  | remaining + 1 => 1 + choices * (freshWeight choices remaining + 1)

/-- The weight of a frame: only the choices that were not tried yet count. -/
def weight (choices : Nat) (f : Frame) : Nat :=
  match f.pending with
  | none => freshWeight choices f.remaining
  | some untried => 1 + untried.length * (freshWeight choices (f.remaining - 1) + 1)

theorem freshWeight_pos (choices remaining : Nat) : 0 < freshWeight choices remaining := by
  cases remaining with
  | zero => exact Nat.one_pos
  | succ remaining => exact Nat.lt_of_lt_of_le Nat.one_pos (Nat.le_add_right _ _)

theorem weight_pos (choices : Nat) (f : Frame) : 0 < f.weight choices := by
  unfold weight
  split
  · exact freshWeight_pos choices f.remaining
  · omega

def totalWeight (choices : Nat) : List Frame → Nat
  | [] => 0
  | f :: below => f.weight choices + totalWeight choices below

end Frame

namespace SearchTask

def width (task : SearchTask) : Nat := task.schema.actions.length + 1

theorem candidates_length_le (task : SearchTask) (s : State) :
    (task.schema.candidates s).length ≤ task.width := by
  simp [Schema.candidates, Schema.executable, width]
  exact List.length_filter_le _ _

end SearchTask

namespace Machine

def initial (remaining : Nat) (state : State) (table : Option StateTable)
    (meter : Meter) : Machine :=
  ⟨[Frame.fresh remaining state], table, meter, Counts.zero⟩

def weight (task : SearchTask) (m : Machine) : Nat := Frame.totalWeight task.width m.frames

/--
The timeline through the frames of a stack: `last` is the state that was
reached from the top frame, and `steps` is what follows it.
-/
def unwind (last : State) (steps : List (Choice × State)) : List Frame → Timeline
  | [] => Timeline.ofSteps last steps
  | frame :: below => unwind frame.state ((frame.choice, last) :: steps) below

/-- Remember that the search from a frame has failed, unless the table has no room for that. -/
def remember? (table : Option StateTable) (f : Frame) : Option (Option StateTable) :=
  match table with
  | some t => (t.record? f.state.facts (f.remaining : Int)).map some
  | none => some none

def lookUp (table : Option StateTable) (f : Frame) :
    Bool × Option StateTable :=
  match table with
  | some t =>
      let (known, touched) := t.isDeadEnd f.state.facts (f.remaining : Int)
      (known, some touched)
  | none => (false, none)

/-- Try a choice of the top frame, of which others are then still untried. -/
def tryChoice (task : SearchTask) (f : Frame) (choice : Choice) (untried : List Choice)
    (below : List Frame) (table : Option StateTable) (meter : Meter)
    (statistics : Statistics) : Progress :=
  let tried : Frame := ⟨f.remaining, f.state, choice, some untried⟩
  match task.schema.advance task.checked f.state choice (.whole (f.step task)) with
  | .ok successor =>
      .going ⟨Frame.fresh (f.remaining - 1) successor :: tried :: below, table, meter,
        { statistics with transitions := statistics.transitions + 1 }⟩
  | .error failure => .halted (.broken failure) ⟨tried :: below, table, meter, statistics⟩

/-- Take the top frame, from which the search has failed, off the stack. -/
def giveUp (f : Frame) (below : List Frame) (table : Option StateTable) (meter : Meter)
    (statistics : Statistics) : Progress :=
  match remember? table f with
  | some table => .going ⟨below, table, meter, statistics⟩
  | none => .halted .narrow ⟨f :: below, table, meter, statistics⟩

/-- Stay in the state of the top frame, in which the goal holds, until the last step. -/
def settle (f : Frame) (below : List Frame) (table : Option StateTable)
    (meter : Meter) (statistics : Statistics) : Progress :=
  .halted (.reached (unwind f.state (List.replicate f.remaining (none, f.state)) below))
    ⟨f :: below, table, meter,
      { statistics with transitions := statistics.transitions + f.remaining }⟩

/-- Look at the top frame, whose visit was granted and in which the goal does not hold. -/
def expand (task : SearchTask) (f : Frame) (below : List Frame)
    (table : Option StateTable) (meter : Meter)
    (statistics : Statistics) : Progress :=
  if f.remaining = 0 then giveUp f below table meter statistics
  else
    match lookUp table f with
    | (true, table) =>
        .going ⟨below, table, meter,
          { statistics with deadEndHits := statistics.deadEndHits + 1 }⟩
    | (false, table) =>
        match task.schema.candidates f.state with
        | [] => .going ⟨below, table, meter, statistics⟩
        | choice :: untried => tryChoice task f choice untried below table meter statistics

def visit (task : SearchTask) (f : Frame) (below : List Frame)
    (table : Option StateTable) (meter : Meter)
    (statistics : Statistics) : Progress :=
  match meter.charge with
  | (some reason, meter) => .halted (.refused reason) ⟨f :: below, table, meter, statistics⟩
  | (none, meter) =>
      let statistics := statistics.visit (f.step task)
      if f.state.satisfies task.goal.toList then settle f below table meter statistics
      else expand task f below table meter statistics

def step (task : SearchTask) : Machine → Progress
  | ⟨[], table, meter, statistics⟩ => .halted .exhausted ⟨[], table, meter, statistics⟩
  | ⟨f :: below, table, meter, statistics⟩ =>
      match f.pending with
      | none => visit task f below table meter statistics
      | some [] =>
          giveUp f below table meter { statistics with backtracks := statistics.backtracks + 1 }
      | some (choice :: untried) =>
          tryChoice task f choice untried below table meter statistics

theorem weight_cons (task : SearchTask) (f : Frame) (below : List Frame)
    (table : Option StateTable) (meter : Meter)
    (statistics : Statistics) :
    weight task ⟨f :: below, table, meter, statistics⟩ =
      f.weight task.width + Frame.totalWeight task.width below := rfl

theorem weight_giveUp_lt {task : SearchTask} {f : Frame} {below : List Frame}
    {table : Option StateTable} {meter : Meter} {statistics : Statistics} {m : Machine}
    (next : giveUp f below table meter statistics = .going m) (heavier : Nat)
    (positive : 0 < heavier) :
    weight task m < heavier + Frame.totalWeight task.width below := by
  unfold giveUp at next
  split at next
  · cases next
    simp [weight]
    omega
  · simp at next

theorem weight_tryChoice_lt {task : SearchTask} {f : Frame} {choice : Choice}
    {untried : List Choice} {below : List Frame}
    {table : Option StateTable} {meter : Meter}
    {statistics : Statistics} {m : Machine}
    (next : tryChoice task f choice untried below table meter statistics = .going m) :
    weight task m < 1 + (untried.length + 1) * (Frame.freshWeight task.width (f.remaining - 1) + 1)
      + Frame.totalWeight task.width below := by
  unfold tryChoice at next
  split at next
  · cases next
    simp [weight, Frame.totalWeight, Frame.weight, Frame.fresh, Nat.add_mul]
    omega
  · simp at next

theorem weight_expand_lt {task : SearchTask} {f : Frame} {below : List Frame}
    {table : Option StateTable} {meter : Meter}
    {statistics : Statistics} {m : Machine}
    (next : expand task f below table meter statistics = .going m) :
    weight task m < Frame.freshWeight task.width f.remaining +
      Frame.totalWeight task.width below := by
  have positive := Frame.freshWeight_pos task.width f.remaining
  unfold expand at next
  split at next
  · exact weight_giveUp_lt next _ positive
  · rename_i more
    split at next
    · cases next
      simp [weight]
      omega
    · split at next
      · cases next
        simp [weight]
        omega
      · rename_i choice untried listed
        have bound := task.candidates_length_le f.state
        rw [listed, List.length_cons] at bound
        refine Nat.lt_of_lt_of_le (weight_tryChoice_lt next) ?_
        obtain ⟨fewer, same⟩ := Nat.exists_eq_succ_of_ne_zero more
        rw [same]
        simp only [Nat.succ_sub_one, Nat.succ_eq_add_one, Frame.freshWeight]
        have := Nat.mul_le_mul_right (Frame.freshWeight task.width fewer + 1) bound
        omega

theorem weight_visit_lt {task : SearchTask} {f : Frame} {below : List Frame}
    {table : Option StateTable} {meter : Meter}
    {statistics : Statistics} {m : Machine}
    (next : visit task f below table meter statistics = .going m) :
    weight task m < Frame.freshWeight task.width f.remaining +
      Frame.totalWeight task.width below := by
  unfold visit at next
  split at next
  · simp at next
  · simp only at next
    split at next
    · simp [settle] at next
    · exact weight_expand_lt next

theorem weight_lt_of_step {task : SearchTask} {m n : Machine}
    (next : step task m = .going n) : weight task n < weight task m := by
  unfold step at next
  split at next
  · simp at next
  · rename_i f below table meter statistics
    rw [weight_cons]
    split at next
    · rename_i fresh
      rw [Frame.weight, fresh]
      exact weight_visit_lt next
    · exact weight_giveUp_lt next _ (Frame.weight_pos task.width f)
    · rename_i choice untried pending
      rw [Frame.weight, pending]
      exact weight_tryChoice_lt next

def run (task : SearchTask) (m : Machine) : Ending × Machine :=
  match _next : step task m with
  | .going n => run task n
  | .halted ending n => (ending, n)
termination_by weight task m
decreasing_by exact weight_lt_of_step _next

end Machine

end StackingPlanner
