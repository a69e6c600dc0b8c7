import Mathlib.Logic.Basic
import StackingPlanner.Proofs.Search.Settings

/-!
# What a meter shows

What a meter shows follows from what was done with it and from the readings of
its clock.  It counts the charges that are not refused because it was cancelled
or because the visits are used up; a charge that is refused because of the time
is counted.  The clock is read by the first start, by whoever asks for the time
after it, and by a charge that is counted after it if the budget limits the time.
-/

namespace StackingPlanner

namespace Clock

def skip (c : Clock) : Nat → Clock
  | 0 => c
  | count + 1 => (c.skip count).read.2

/-- The reading of a clock that comes after a number of others. -/
def reading (c : Clock) (earlier : Nat) : Float := (c.skip earlier).read.1

def readIf (c : Clock) (isRead : Bool) : Clock := if isRead then c.read.2 else c

theorem skip_add_toNat (c : Clock) (count : Nat) (isRead : Bool) :
    c.skip (count + isRead.toNat) = (c.skip count).readIf isRead := by
  cases isRead <;> rfl

end Clock

namespace Meter

/-! ## One operation -/

/-- What is done with a meter. -/
inductive Operation where
  | start
  | charge
  | cancel
  | elapsed
  deriving DecidableEq

inductive Reply where
  | done
  /-- The answer to a charge: the refusal, if there is one. -/
  | charged (refusal : Option Refusal)
  | seconds (count : Float)

/-- Whether a charge was not refused, or only because of the time. -/
def Reply.isCounted : Reply → Bool
  | charged refusal => refusal ∉ [some .cancelled, some .nodeBudget]
  | _ => false

def perform (m : Meter) : Operation → Reply × Meter
  | .start => (.done, m.start)
  | .charge => (.charged m.charge.1, m.charge.2)
  | .cancel => (.done, m.cancel)
  | .elapsed => (.seconds m.elapsed.1, m.elapsed.2)

/-- Whether an operation reads the clock, by its answer and whether the meter was started. -/
def Operation.reads (budget : Budget) (isStarted : Bool) : Operation → Reply → Bool
  | start, _ => !isStarted
  | charge, reply => budget.timeLimit.isSome && isStarted && reply.isCounted
  | cancel, _ => false
  | elapsed, _ => isStarted

/--
What operations can do with a meter.  A charge is refused because the meter was
cancelled or because the visits are used up, and then it changes nothing; or
else the visit is counted.
-/
inductive Performs (m : Meter) : Operation → Reply → Meter → Prop where
  | started (unstarted : m.startedAt = none) :
      Performs m .start .done { m with startedAt := some m.clock.read.1, clock := m.clock.read.2 }
  | again {began : Float} (started : m.startedAt = some began) : Performs m .start .done m
  | ended (cancelled : m.cancelled = true) : Performs m .charge (.charged (some .cancelled)) m
  | used (granting : m.cancelled = false) (exhausted : exhausts m.budget m.nodes = true) :
      Performs m .charge (.charged (some .nodeBudget)) m
  | counted (granting : m.cancelled = false) (left : exhausts m.budget m.nodes = false)
      {refusal : Option Refusal} (late : refusal = none ∨ refusal = some .timeLimit) :
      Performs m .charge (.charged refusal) { m with
        nodes := m.nodes + 1
        clock := m.clock.readIf (m.budget.timeLimit.isSome && m.startedAt.isSome) }
  | cancelled : Performs m .cancel .done { m with cancelled := true }
  | early (unstarted : m.startedAt = none) : Performs m .elapsed (.seconds 0) m
  | timed {began : Float} (started : m.startedAt = some began) :
      Performs m .elapsed (.seconds (m.clock.read.1 - began)) { m with clock := m.clock.read.2 }

section Perform

variable {m n : Meter} {operation : Operation} {reply : Reply}

theorem elapsed_eq (m : Meter) :
    m.elapsed.2 = { m with clock := m.clock.readIf m.startedAt.isSome } := by
  obtain ⟨budget, clock, startedAt, nodes, cancelled⟩ := m
  cases startedAt <;> rfl

theorem performs_charge (m : Meter) :
    Performs m .charge (.charged m.charge.1) m.charge.2 := by
  obtain ⟨⟨most, limit⟩, clock, startedAt, nodes, cancelled⟩ := m
  cases cancelled with
  | true => exact .ended rfl
  | false =>
      unfold charge
      rw [if_neg Bool.false_ne_true]
      split
      · rename_i exhausted
        exact .used rfl exhausted
      · rename_i left
        have left := (Bool.not_eq_true _).mp left
        cases limit with
        | none => exact .counted rfl left (.inl rfl)
        | some limit =>
            dsimp only
            rw [elapsed_eq]
            exact .counted rfl left (ite_eq_or_eq _ _ _).symm

theorem performs_perform (m : Meter) (operation : Operation) :
    Performs m operation (m.perform operation).1 (m.perform operation).2 := by
  cases operation with
  | start =>
      simp only [perform, Meter.start]
      split
      · rename_i began started
        exact .again started
      · rename_i unstarted
        exact .started unstarted
  | charge => exact m.performs_charge
  | cancel => exact .cancelled
  | elapsed =>
      simp only [perform, Meter.elapsed]
      split
      · rename_i unstarted
        exact .early unstarted
      · rename_i began started
        exact .timed started

namespace Performs

variable (performs : m.Performs operation reply n)

include performs

theorem budget : n.budget = m.budget := by cases performs <;> rfl

theorem isCancelled : n.cancelled = (decide (operation = .cancel) || m.cancelled) := by
  cases performs <;> rfl

theorem isStarted :
    n.startedAt.isSome = (decide (operation = .start) || m.startedAt.isSome) := by
  cases performs with
  | again started => rw [started]; rfl
  | _ => rfl

theorem startedAt {began : Float} (started : m.startedAt = some began) :
    n.startedAt = some began := by
  cases performs with
  | started unstarted => cases unstarted.symm.trans started
  | _ => exact started

theorem clock :
    n.clock = m.clock.readIf (operation.reads m.budget m.startedAt.isSome reply) := by
  cases performs with
  | started unstarted => rw [unstarted]; rfl
  | again started => rw [started]; rfl
  | ended _ => simp [Operation.reads, Reply.isCounted, Clock.readIf]
  | used _ _ => simp [Operation.reads, Reply.isCounted, Clock.readIf]
  | counted granting left late =>
      rcases late with rfl | rfl <;> simp [Operation.reads, Reply.isCounted]
  | cancelled => rfl
  | early unstarted => rw [unstarted]; rfl
  | timed started => rw [started]; rfl

theorem nodes : n.nodes = m.nodes + reply.isCounted.toNat := by
  cases performs with
  | counted granting left late => rcases late with rfl | rfl <;> rfl
  | _ => rfl

theorem exhausted (exhausted : exhausts m.budget m.nodes = true) :
    exhausts n.budget n.nodes = true := by
  cases performs with
  | counted granting left late => cases left.symm.trans exhausted
  | _ => exact exhausted

theorem exhausted_of_refused (refused : reply = .charged (some .nodeBudget)) :
    exhausts n.budget n.nodes = true := by
  cases performs with
  | used granting exhausted => exact exhausted
  | counted granting left late => rcases late with rfl | rfl <;> cases refused
  | _ => cases refused

theorem isCounted (charge : operation = .charge) (granting : m.cancelled = false)
    (left : exhausts m.budget m.nodes = false) : reply.isCounted = true := by
  cases performs with
  | ended cancelled => cases granting.symm.trans cancelled
  | used _ exhausted => cases left.symm.trans exhausted
  | counted _ _ late => rcases late with rfl | rfl <;> rfl
  | _ => cases charge

/-- A visit is only counted as long as those before it do not use them up. -/
theorem left (left : ∀ count < m.nodes, exhausts m.budget count = false) :
    ∀ count < n.nodes, exhausts n.budget count = false := by
  cases performs with
  | counted granting more late =>
      intro count counted
      rcases Nat.lt_succ_iff_lt_or_eq.mp counted with earlier | rfl
      · exact left count earlier
      · exact more
  | _ => exact left

end Performs

theorem perform_of_unread
    (unread : operation.reads m.budget m.startedAt.isSome (m.perform operation).1 = false)
    (other : Clock) :
    { m with clock := other }.perform operation =
      ((m.perform operation).1, { (m.perform operation).2 with clock := other }) := by
  obtain ⟨⟨most, limit⟩, clock, startedAt, nodes, cancelled⟩ := m
  cases operation with
  | start =>
      cases startedAt with
      | none => cases unread
      | some began => rfl
  | charge =>
      cases cancelled with
      | true => rfl
      | false =>
          cases left : exhausts ⟨most, limit⟩ nodes with
          | true => simp [perform, charge, left]
          | false =>
              cases limit with
              | none => simp [perform, charge, left]
              | some limit =>
                  cases startedAt with
                  | none =>
                      simp only [perform, charge, elapsed, left]
                      rfl
                  | some began =>
                      let m : Meter := ⟨⟨most, some limit⟩, clock, some began, nodes, false⟩
                      have counted := m.performs_charge.isCounted rfl rfl left
                      cases unread.symm.trans counted
  | cancel => rfl
  | elapsed =>
      cases startedAt with
      | none => rfl
      | some began => cases unread

end Perform

section History

variable (budget : Budget) (clock : Clock)

/-- A new meter after operations, of which the last one is listed first. -/
def after : List Operation → Meter
  | [] => fresh budget clock
  | operation :: earlier => ((after earlier).perform operation).2

def replies : List Operation → List Reply
  | [] => []
  | operation :: earlier => ((after budget clock earlier).perform operation).1 :: replies earlier

def readings : List Operation → Nat
  | [] => 0
  | operation :: earlier =>
      readings earlier +
        (operation.reads budget (.start ∈ earlier)
          ((after budget clock earlier).perform operation).1).toNat

variable {budget clock} {history : List Operation} {m : Meter}

/-- A meter is what its history makes of it. -/
structure Tracks (budget : Budget) (clock : Clock) (history : List Operation) (m : Meter) :
    Prop where
  sameBudget : m.budget = budget
  isCancelled : m.cancelled = decide (.cancel ∈ history)
  isStarted : m.startedAt.isSome = decide (.start ∈ history)
  counted : m.nodes = (replies budget clock history).countP Reply.isCounted
  sameClock : m.clock = clock.skip (readings budget clock history)

/-- A meter follows its history, whatever is done with it. -/
theorem tracks_after (budget : Budget) (clock : Clock) (history : List Operation) :
    Tracks budget clock history (after budget clock history) := by
  induction history with
  | nil => exact ⟨rfl, rfl, rfl, rfl, rfl⟩
  | cons operation earlier ih =>
      have performs := (after budget clock earlier).performs_perform operation
      constructor
      case sameBudget => exact performs.budget.trans ih.sameBudget
      case isCancelled =>
        refine performs.isCancelled.trans ?_
        rw [ih.isCancelled]
        simp [eq_comm]
      case isStarted =>
        refine performs.isStarted.trans ?_
        rw [ih.isStarted]
        simp [eq_comm]
      case counted =>
        refine performs.nodes.trans ?_
        rw [ih.counted, replies, List.countP_cons]
        cases Reply.isCounted _ <;> rfl
      case sameClock =>
        refine performs.clock.trans ?_
        rw [readings, Clock.skip_add_toNat, ih.sameClock, ih.sameBudget, ih.isStarted]

/-- The time of the start is the reading that the first start took. -/
theorem startedAt_after {later earlier : List Operation} (first : .start ∉ earlier) :
    (after budget clock (later ++ .start :: earlier)).startedAt =
      some (clock.reading (readings budget clock earlier)) := by
  induction later with
  | nil =>
      have before := tracks_after budget clock earlier
      have unstarted : (after budget clock earlier).startedAt = none := by
        rw [← Option.not_isSome_iff_eq_none, before.isStarted]
        simpa using first
      rw [List.nil_append, after, perform, Meter.start, unstarted, before.sameClock]
      rfl
  | cons operation later ih =>
      exact (performs_perform _ operation).startedAt ih

/-- After a charge that was refused because the visits were used up, they are used up. -/
theorem exhausts_after (refused : .charged (some .nodeBudget) ∈ replies budget clock history) :
    exhausts (after budget clock history).budget (after budget clock history).nodes = true := by
  induction history with
  | nil => cases refused
  | cons operation earlier ih =>
      have performs := (after budget clock earlier).performs_perform operation
      rcases List.mem_cons.mp refused with now | before
      · exact performs.exhausted_of_refused now.symm
      · exact performs.exhausted (ih before)

theorem exhausts_of_lt_nodes : ∀ count < (after budget clock history).nodes,
    exhausts budget count = false := by
  have left : ∀ count < (after budget clock history).nodes,
      exhausts (after budget clock history).budget count = false := by
    induction history with
    | nil => exact fun count none => absurd none count.not_lt_zero
    | cons operation earlier ih => exact (performs_perform _ operation).left ih
  rwa [(tracks_after budget clock history).sameBudget] at left

theorem nodes_after_le {most : Nat} (bound : budget.maxNodes = some (.whole most)) :
    (after budget clock history).nodes ≤ most := by
  refine Nat.not_lt.mp (fun more => ?_)
  have left := exhausts_of_lt_nodes most more
  rw [exhausts_whole bound, decide_eq_false_iff_not] at left
  exact left (Nat.le_refl most)

theorem nodes_after_append_le (later : List Operation) :
    (after budget clock history).nodes ≤ (after budget clock (later ++ history)).nodes := by
  induction later with
  | nil => exact Nat.le_refl _
  | cons operation later ih =>
      have counted := (performs_perform (after budget clock (later ++ history)) operation).nodes
      exact Nat.le_trans ih (counted ▸ Nat.le_add_right _ _)

/--
What a meter shows of its history.  An operation that does not read the clock
leaves it where the history did, and would do the same with any other clock.
-/
structure Accounts (budget : Budget) (clock : Clock) (history : List Operation) (m : Meter) :
    Prop where
  /-- A charge that is refused because of the time is counted. -/
  counted : m.nodes = (replies budget clock history).countP Reply.isCounted
  /-- No visit is counted after those that use up a bound of any kind. -/
  left : ∀ count < m.nodes, exhausts budget count = false
  within : ∀ most : Nat, budget.maxNodes = some (.whole most) → m.nodes ≤ most
  grows : ∀ later, m.nodes ≤ (after budget clock (later ++ history)).nodes
  cancelled : .cancel ∈ history → m.charge = (some .cancelled, m)
  /-- Visits that were used up once stay used up. -/
  used : .charged (some .nodeBudget) ∈ replies budget clock history →
    m.charge = (some .nodeBudget, m) ∨ m.charge = (some .cancelled, m)
  again : .start ∈ history → m.start = m
  early : .start ∉ history → m.elapsed.1 = 0
  /-- The time is counted from the reading that the first start took. -/
  elapsed : ∀ later earlier, history = later ++ .start :: earlier → .start ∉ earlier →
    m.elapsed.1 = clock.reading (readings budget clock history) -
      clock.reading (readings budget clock earlier)
  /-- The clock was read as often as the operations read it. -/
  consumed : m.clock = clock.skip (readings budget clock history)
  untouched : ∀ operation,
    operation.reads budget (.start ∈ history) (m.perform operation).1 = false →
      ∀ other : Clock, { m with clock := other }.perform operation =
        ((m.perform operation).1, { (m.perform operation).2 with clock := other })

/--
Whatever is done with a meter, it counts the visits that are neither refused
because it was cancelled nor because they are used up.
-/
theorem accounts_history (budget : Budget) (clock : Clock) (history : List Operation) :
    Accounts budget clock history (after budget clock history) := by
  have tracks := tracks_after budget clock history
  constructor
  case counted => exact tracks.counted
  case left => exact exhausts_of_lt_nodes
  case within => exact fun most bound => nodes_after_le bound
  case grows => exact nodes_after_append_le
  case cancelled =>
    intro ended
    exact charge_of_cancelled (tracks.isCancelled.trans (decide_eq_true ended))
  case used =>
    intro refused
    cases cancelled : (after budget clock history).cancelled with
    | true => exact .inr (charge_of_cancelled cancelled)
    | false => exact .inl (charge_of_exhausted cancelled (exhausts_after refused))
  case again =>
    intro started
    exact start_of_started (tracks.isStarted.trans (decide_eq_true started))
  case early =>
    intro unstarted
    have none : (after budget clock history).startedAt = none := by
      rw [← Option.not_isSome_iff_eq_none, tracks.isStarted]
      simpa using unstarted
    rw [elapsed, none]
  case elapsed =>
    rintro later earlier rfl first
    rw [elapsed, startedAt_after first, tracks.sameClock]
    rfl
  case consumed => exact tracks.sameClock
  case untouched =>
    intro operation unread other
    refine perform_of_unread ?_ other
    rw [tracks.sameBudget, tracks.isStarted]
    exact unread

end History

end Meter

end StackingPlanner
