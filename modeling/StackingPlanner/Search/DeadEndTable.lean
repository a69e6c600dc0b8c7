import StackingPlanner.Misuse
import Std.Data.HashMap

/-!
# Dead-end tables

A dead-end table remembers of a bounded number of states the most remaining
steps with which a search from them has failed.  When it is full and a new
state comes, the state that was not touched for the longest time is forgotten.
-/

namespace StackingPlanner

/-- What is remembered of a state: the remaining steps, and when it was last touched. -/
structure DeadEnd (ρ : Type) where
  remaining : ρ
  touched : Nat
  deriving DecidableEq, Repr

/-- A bounded table of dead ends under keys, with steps of an ordered type. -/
structure DeadEndTable (κ ρ : Type) [BEq κ] [Hashable κ] where
  /-- How many states may be remembered; it is positive, but need not be whole. -/
  capacity : Number
  entries : Std.HashMap κ (DeadEnd ρ)
  /-- The number of touches so far. -/
  time : Nat
  hits : Nat
  misses : Nat

namespace DeadEndTable

variable {κ ρ : Type} [BEq κ] [Hashable κ]

def make (capacity : Value) : Except Misuse (DeadEndTable κ ρ) :=
  match capacity.number? with
  | none => .error .mismatch
  | some n => if n.isAtMost (.whole 0) then .error (.tableSize capacity) else .ok ⟨n, ∅, 0, 0, 0⟩

def size (t : DeadEndTable κ ρ) : Nat := t.entries.size

def isFull (t : DeadEndTable κ ρ) : Bool := t.capacity.isBelow (.whole (t.size + 1))

def isNarrow (t : DeadEndTable κ ρ) : Bool := t.capacity.isBelow (.whole 1)

def store (t : DeadEndTable κ ρ) (key : κ) (remaining : ρ) : DeadEndTable κ ρ :=
  match t with
  | ⟨capacity, entries, time, hits, misses⟩ =>
      ⟨capacity, entries.insert key ⟨remaining, time⟩, time + 1, hits, misses⟩

/-- The key that was not touched for the longest time. -/
def oldest? (t : DeadEndTable κ ρ) : Option (κ × Nat) :=
  t.entries.fold
    (fun oldest key entry =>
      match oldest with
      | some (k, touched) =>
          if entry.touched < touched then some (key, entry.touched) else some (k, touched)
      | none => some (key, entry.touched))
    none

def forgetOldest (t : DeadEndTable κ ρ) : DeadEndTable κ ρ :=
  match t.oldest? with
  | some (key, _) => { t with entries := t.entries.erase key }
  | none => t

/-- Whether a key is known to fail with a number of remaining steps; a known key is touched. -/
def isDeadEnd [LE ρ] [DecidableLE ρ] (t : DeadEndTable κ ρ) (key : κ) (remaining : ρ) :
    Bool × DeadEndTable κ ρ :=
  match t.entries[key]? with
  | some entry =>
      let touched := t.store key entry.remaining
      if remaining ≤ entry.remaining then (true, { touched with hits := touched.hits + 1 })
      else (false, { touched with misses := touched.misses + 1 })
  | none => (false, { t with misses := t.misses + 1 })

/--
Remember that a key fails with a number of remaining steps; of two numbers the
greater is kept.  A table without room for one state remembers nothing.
-/
def record? [LT ρ] [DecidableLT ρ] (t : DeadEndTable κ ρ) (key : κ) (remaining : ρ) :
    Option (DeadEndTable κ ρ) :=
  match t.entries[key]? with
  | some entry =>
      some (t.store key (if entry.remaining < remaining then remaining else entry.remaining))
  | none =>
      if t.isNarrow then none
      else some ((if t.isFull then t.forgetOldest else t).store key remaining)

def clear (t : DeadEndTable κ ρ) : DeadEndTable κ ρ := { t with entries := ∅ }

def hitRate (t : DeadEndTable κ ρ) : Float :=
  if t.hits + t.misses = 0 then 0 else Number.quotient t.hits (t.hits + t.misses)

end DeadEndTable

end StackingPlanner
