import StackingPlanner.Search.DeadEndTable

/-!
# Dead-end tables on values

States and remaining steps may be values of many kinds.  A state is any value
that may stand in a set.  Remaining steps are compared only with those that
are known of the same state, and null stands for none.
-/

namespace StackingPlanner

abbrev GivenTable := DeadEndTable Key Value

namespace GivenTable

/-- The key of a state; an undefined number is a new state whenever it is given. -/
def stateKey (t : GivenTable) (state : Value) : Except Misuse Key :=
  match state.memberKey? with
  | none => .error .mismatch
  | some key =>
      .ok (if state.equalsItself then key else .other (state.display ++ " " ++ toString t.time))

/-- What is known of a key, and the table once the key was touched. -/
def touch (t : GivenTable) (key : Key) : Option Value × GivenTable :=
  match t.entries[key]? with
  | some entry => (some entry.remaining, t.store key entry.remaining)
  | none => (none, t)

def miss (t : GivenTable) : GivenTable := { t with misses := t.misses + 1 }

def check (t : GivenTable) (state remaining : Value) : Except Misuse Bool × GivenTable :=
  match t.stateKey state with
  | .error misuse => (.error misuse, t)
  | .ok key =>
      match t.touch key with
      | (none, t) => (.ok false, t.miss)
      | (some .null, t) => (.ok false, t.miss)
      | (some failed, t) =>
          match remaining.isAtMost failed with
          | .error misuse => (.error misuse, t)
          | .ok true => (.ok true, { t with hits := t.hits + 1 })
          | .ok false => (.ok false, t.miss)

def record (t : GivenTable) (state remaining : Value) : Except Misuse Unit × GivenTable :=
  match t.stateKey state with
  | .error misuse => (.error misuse, t)
  | .ok key =>
      match t.touch key with
      | (none, t) =>
          if t.isNarrow then (.error .narrowTable, t)
          else (.ok (), (if t.isFull then t.forgetOldest else t).store key remaining)
      | (some .null, t) => (.ok (), t.store key remaining)
      | (some failed, t) =>
          match failed.isBelow remaining with
          | .error misuse => (.error misuse, t)
          | .ok isGreater => (.ok (), if isGreater then t.store key remaining else t)

end GivenTable

end StackingPlanner
