import StackingPlanner.Misuse

/-!
# Journal records

A record of the journal has a level, the channel it comes from, a message and
named values.  A channel carries values of its own that are added to each of
its records.
-/

namespace StackingPlanner

/-- How important a record is. -/
inductive Level where
  | debug
  | info
  | warning
  | error
  | critical
  deriving DecidableEq, Repr

namespace Level

def all : List Level := [debug, info, warning, error, critical]

def name : Level → String
  | debug => "DEBUG"
  | info => "INFO"
  | warning => "WARNING"
  | error => "ERROR"
  | critical => "CRITICAL"

def rank : Level → Nat
  | debug => 10
  | info => 20
  | warning => 30
  | error => 40
  | critical => 50

def otherNames : List (String × Level) := [("WARN", warning), ("FATAL", critical)]

def ofName? (s : String) : Option Level :=
  (all.find? (fun level => level.name = s)).or (otherNames.lookup s)

/-- The level that a value names, or none if it names the absence of one. -/
def ofValue : Value → Except Misuse (Option Level)
  | .text "NOTSET" => .ok none
  | .text s =>
      match ofName? s with
      | some level => .ok (some level)
      | none => .error .noEntries
  | _ => .error .mismatch

def passes (level threshold : Level) : Bool := threshold.rank ≤ level.rank

def lower (a b : Level) : Level := if a.rank ≤ b.rank then a else b

end Level

structure Record where
  level : Level
  channel : String
  message : String
  fields : Entries := []

structure RecordStyle where
  /-- The time that stands before each record, in seconds. -/
  time : Option Number := none
  /-- Whether the named values are written. -/
  withFields : Bool := true

namespace Record

def padRight (width : Nat) (text : String) : String :=
  text ++ String.ofList (List.replicate (width - text.length) ' ')

def twoDigits (n : Nat) : String := Number.padZeros 2 (toString n)

/-- The time of day after a number of seconds since midnight at the start of an epoch. -/
def timeOfDay (seconds : Number) : String :=
  let second := (seconds.floor % 86400).toNat
  twoDigits (second / 3600) ++ ":" ++ twoDigits (second / 60 % 60) ++ ":" ++ twoDigits (second % 60)

def lastWritten : Int := 67767976233532799

def firstCounted : Int := -67768040609740800

def lastCounted : Int := 67768036191676799

def lastTold : Int := 9223372036854775807

def checkTime (seconds : Number) : Except Misuse Unit :=
  match seconds.exact with
  | .undefined => .error .timeUndefined
  | .infinite _ => .error .timeOverflow
  | .finite _ _ =>
      let second := seconds.floor
      if lastTold < second || second < -lastTold - 1 then .error .timeOverflow
      else if lastCounted < second || second < firstCounted then .error .timeOutside
      else if lastWritten < second then .error .timeOverflow
      else .ok ()

/-- The named values in the order of their names. -/
def fieldText (fields : Entries) : String :=
  String.intercalate " "
    ((sorted (fields.map (·.1))).map (fun key =>
      key ++ "=" ++ ((fields.get? key).getD .null).plain))

def line (style : RecordStyle) (r : Record) : String :=
  (match style.time with
    | some seconds => timeOfDay seconds ++ " "
    | none => "") ++
    padRight 7 r.level.name ++ " " ++ r.channel ++ ": " ++ r.message ++
    (if style.withFields && !r.fields.isEmpty then " | " ++ fieldText r.fields else "")

def checkStyle (style : RecordStyle) : Except Misuse Unit :=
  match style.time with
  | some seconds => checkTime seconds
  | none => .ok ()

end Record

/-- A channel with the values that are bound to it. -/
structure Channel where
  name : String
  bound : Entries := []

namespace Channel

def root : Channel := { name := "root" }

def named : Value → Except Misuse Channel
  | .text name => .ok (if name = "" then root else { name })
  | value => if value.counts then .error .mismatch else .ok root

def bind (c : Channel) (values : Entries) : Channel :=
  { c with bound := c.bound.setAll values }

def record (c : Channel) (level : Level) (message : String) (values : Entries) : Record :=
  ⟨level, c.name, message, c.bound.setAll values⟩

/-- The values that are added to a record; a number is none, but does no harm to bound ones. -/
def extraValues (c : Channel) (extra : Value) : Except Misuse Entries :=
  if extra.counts then extra.takePairs.map (·.map (fun pair => (pair.1.plain, pair.2)))
  else if extra.number?.isSome && c.bound.isEmpty then .error .mismatch
  else .ok []

end Channel

end StackingPlanner
