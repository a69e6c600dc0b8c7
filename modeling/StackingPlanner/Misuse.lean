import StackingPlanner.Document.Order
import StackingPlanner.Failure
import StackingPlanner.Number.Numeral
import StackingPlanner.Text.Utf8

/-!
# Misuses

A misuse is no fault of the planner or of a description: an operation is used
outside its range, or a value does not have the kind that is needed.  Values
that need not have the right kind are taken apart here.
-/

namespace StackingPlanner

/-- A use of an operation outside its range, or of something that is not there. -/
inductive Misuse where
  /-- A search starts outside its steps. -/
  | startStep (startStep horizon : Value)
  /-- A dead-end table without room. -/
  | tableSize (size : Value)
  /-- A dead-end table has no room for even one state. -/
  | narrowTable
  /-- A branching search without workers. -/
  | branchWorkers (maxWorkers : Value)
  /-- A timeline with too many or too few choices. -/
  | timelineShape (states choices : Nat)
  /-- A state is asked for outside a timeline. -/
  | stateStep (step : Value) (horizon : Nat)
  /-- A choice is asked for outside a timeline. -/
  | choiceStep (step : Value) (horizon : Nat)
  /-- The steps of a plan do not fit. -/
  | planSteps (message : String)
  /-- A proof step has the identifier of another. -/
  | duplicateStep (id : Value)
  /-- A value names no kind of proof step. -/
  | stepKind (value : Value)
  /-- A share lies outside the unit interval. -/
  | share (name : String) (value : Value)
  /-- A key is missing. -/
  | missingKey (key : Value)
  /-- A list has no such item. -/
  | listIndex
  /-- A text has no such character. -/
  | textIndex
  /-- A fluent has no such argument. -/
  | argumentIndex
  /-- Values are combined that do not fit together. -/
  | mismatch
  /-- A value has no entries. -/
  | noEntries
  /-- An item that is to be an entry is no pair. -/
  | pairLength (position length : Nat)
  /-- The bytes of a file encode no text. -/
  | undecodable (error : Text.Utf8Error)
  /-- The file of a log cannot be opened. -/
  | logFile (cause : FileCause)
  /-- A path contains a null character. -/
  | nullInPath
  /-- A text with lone surrogates is to be encoded. -/
  | unencodable (position count code : Nat)
  /-- A document holds a whole number with too many digits. -/
  | longNumber (digits : Nat)
  /-- A document is nested too deeply. -/
  | tooDeep
  /-- A whole number is too large for a sum with a floating-point number. -/
  | sumOverflow
  /-- A time is undefined. -/
  | timeUndefined
  /-- The year of a time is too large to be written. -/
  | timeOverflow
  /-- The year of a time is too large to be counted. -/
  | timeOutside

namespace Misuse

def described : Misuse → String × String
  | startStep start horizon =>
      ("ValueError", "start_step " ++ start.plain ++ " outside 1.." ++ horizon.plain)
  | tableSize size => ("ValueError", "maxsize must be positive, got " ++ size.plain)
  | narrowTable => ("ValueError", "value too large")
  | branchWorkers count => ("ValueError", "max_workers must be >= 1, got " ++ count.plain)
  | timelineShape states choices =>
      ("ValueError", "Timeline with " ++ toString states ++ " states needs " ++
        toString (states - 1) ++ " choices, got " ++ toString choices)
  | stateStep step horizon =>
      ("ValueError", "Step " ++ step.plain ++ " outside timeline 1.." ++ toString horizon)
  | choiceStep step horizon =>
      ("ValueError", "No choice at step " ++ step.plain ++ " (horizon " ++
        toString horizon ++ ")")
  | planSteps message => ("ValueError", message)
  | duplicateStep id => ("ValueError", "Duplicate proof step id: " ++ id.plain)
  | stepKind value => ("ValueError", value.display ++ " is not a valid StepType")
  | share name value =>
      ("ValueError", name ++ " must lie in [0, 1], got " ++ value.plain)
  | missingKey key => ("KeyError", key.display)
  | listIndex => ("IndexError", "list index out of range")
  | textIndex => ("IndexError", "string index out of range")
  | argumentIndex => ("IndexError", "tuple index out of range")
  | mismatch => ("TypeError", "")
  | noEntries => ("AttributeError", "")
  | pairLength position length =>
      ("ValueError", "dictionary update sequence element #" ++ toString position ++
        " has length " ++ toString length ++ "; 2 is required")
  | undecodable error => ("UnicodeDecodeError", error.message)
  | logFile cause => ((cause.described "").1, "")
  | nullInPath => ("ValueError", "embedded null byte")
  | unencodable position count code =>
      ("UnicodeEncodeError", "'utf-8' codec can't encode " ++
        (if count = 1 then
          "character '\\u" ++ Text.hex 4 code ++ "' in position " ++ toString position
        else
          "characters in position " ++ toString position ++ "-" ++
            toString (position + count - 1)) ++
        ": surrogates not allowed")
  | longNumber digits =>
      ("ValueError", "Exceeds the limit (" ++ toString Number.mostDigits ++
        " digits) for integer string conversion: value has " ++ toString digits ++
        " digits; use sys.set_int_max_str_digits() to increase the limit")
  | tooDeep => ("RecursionError", "")
  | sumOverflow => ("OverflowError", "")
  | timeUndefined => ("ValueError", "Invalid value NaN (not a number)")
  | timeOverflow => ("OverflowError", "")
  | timeOutside => ("OSError", "")

end Misuse

namespace Value

def takeText : Value → Except Misuse String
  | .text s => .ok s
  | _ => .error .mismatch

def takeNumber (value : Value) : Except Misuse Number :=
  match value.number? with
  | some n => .ok n
  | none => .error .mismatch

/-- The sum of two numbers; texts and lists are put one after the other. -/
def plus : Value → Value → Except Misuse Value
  | .text s, .text t => .ok (.text (s ++ t))
  | .list items, .list others => .ok (.list (items ++ others))
  | a, b => do
      let n ← a.takeNumber
      let m ← b.takeNumber
      if n.isSummable m then .ok (.number (n.add m)) else .error .sumOverflow

/-- Whether the order of two values, which must have one, is among some orders. -/
def isOrdered (a b : Value) (orders : List Ordering) : Except Misuse Bool :=
  match a.compare b with
  | .ordered order => .ok (orders.contains order)
  | .undefined => .ok false
  | .impossible => .error .mismatch

def isBelow (a b : Value) : Except Misuse Bool := a.isOrdered b [.lt]

def isAtMost (a b : Value) : Except Misuse Bool := a.isOrdered b [.lt, .eq]

def later (a b : Value) : Except Misuse Value := do
  return if ← a.isBelow b then b else a

/-- The items of a value that must have some. -/
def takeItems (value : Value) : Except Misuse (List Value) :=
  match value.items? with
  | some items => .ok items
  | none => .error .mismatch

def takePairs (value : Value) : Except Misuse Pairs :=
  match Pairs.ofValue value with
  | .ok pairs => .ok pairs
  | .error (.length position length) => .error (.pairLength position length)
  | .error .kind => .error .mismatch

def takeEntries (value : Value) : Except Misuse Entries := value.takePairs.map Pairs.toEntries

end Value

/-- What can end an operation: a failure of the planner or a misuse. -/
inductive Fault where
  | failure (f : Failure)
  | misuse (m : Misuse)

instance : Coe Failure Fault := ⟨.failure⟩

instance : Coe Misuse Fault := ⟨.misuse⟩

namespace Fault

def lift {α : Type} : Except Failure α → Except Fault α
  | .ok a => .ok a
  | .error f => .error (.failure f)

end Fault

end StackingPlanner
