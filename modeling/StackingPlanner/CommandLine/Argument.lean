import StackingPlanner.Text.Digit

/-!
# Command-line arguments

Each argument is an option, a value or neither.  An option may be cut short as
long as no other option begins the same way, and a value may be joined to it
by an equals sign.  After two dashes alone every argument is a value.
-/

namespace StackingPlanner

/-- The options of the command line. -/
inductive OptionName where
  | help
  | domain
  | sample
  | horizon
  | maxNodes
  | timeLimit
  | workers
  | json
  | timeline
  | explain
  | logLevel
  | logFile
  deriving DecidableEq, Repr

namespace OptionName

def spellings : List (String × OptionName) :=
  [("--help", help), ("--domain", domain), ("--example", sample), ("--horizon", horizon),
    ("--max-nodes", maxNodes), ("--time-limit", timeLimit), ("--workers", workers),
    ("--json", json), ("--timeline", timeline), ("--explain", explain), ("--log-level", logLevel),
    ("--log-file", logFile)]

def spelled? (spelling : String) : Option OptionName :=
  if spelling = "-h" then some help else spellings.lookup spelling

def beginningWith (text : String) : List OptionName :=
  (spellings.filter (fun entry => text.toList.isPrefixOf entry.1.toList)).map (·.2)

def takesValue : OptionName → Bool
  | help => false
  | json => false
  | timeline => false
  | explain => false
  | _ => true

end OptionName

/-- What a command-line argument is. -/
inductive Argument where
  /-- An option in its long form, with the value that is joined to it. -/
  | option (name : OptionName) (joined : Option String)
  /-- The short form of the option for help, with the characters that are joined to it. -/
  | shortHelp (joined : List Char)
  | value (text : String)
  /-- Two dashes alone. -/
  | separator
  /-- An option that there is not. -/
  | unknown
  deriving Repr

namespace Argument

def splitEquals (cs : List Char) : List Char × Option (List Char) :=
  match cs.dropWhile (· ≠ '=') with
  | [] => (cs, none)
  | _ :: rest => (cs.takeWhile (· ≠ '='), some rest)

/-- Whether a text is a negative number without an exponent; a line feed may follow it. -/
def isNegativeNumber (cs : List Char) : Bool :=
  match cs with
  | '-' :: body =>
      let body := if body.getLast? = some '\n' then body.dropLast else body
      let isDigit (c : Char) : Bool := (Text.digitValue? c).isSome
      let rest := body.dropWhile isDigit
      match rest with
      | [] => !body.isEmpty
      | '.' :: fraction => !fraction.isEmpty && fraction.all isDigit
      | _ => false
  | _ => false

/-- An argument that begins with a dash and is no full spelling of an option. -/
def classifyOther (cs : List Char) : Argument :=
  if isNegativeNumber cs || cs.contains ' ' then .value (String.ofList cs) else .unknown

/-- An argument that begins with two dashes; none if it is short for several options. -/
def classifyLong? (cs : List Char) : Option Argument :=
  let (spelling, joined) := splitEquals cs
  let joined := joined.map String.ofList
  match (OptionName.spelled? (String.ofList spelling)) with
  | some name => some (.option name joined)
  | none =>
      match OptionName.beginningWith (String.ofList spelling) with
      | [] => some (classifyOther cs)
      | [name] => some (.option name joined)
      | _ => none

def classifyShort (cs : List Char) : Argument :=
  match cs with
  | '-' :: 'h' :: joined => .shortHelp joined
  | _ => classifyOther cs

/-- What an argument is; none if it is short for several options. -/
def classify? (text : String) : Option Argument :=
  match text.toList with
  | '-' :: '-' :: rest =>
      if rest.isEmpty then some .separator else classifyLong? ('-' :: '-' :: rest)
  | ['-'] => some (.value text)
  | '-' :: rest => some (classifyShort ('-' :: rest))
  | _ => some (.value text)

def classifyAll? : List String → Option (List Argument)
  | [] => some []
  | text :: rest =>
      match classify? text with
      | none => none
      | some .separator => some (.separator :: rest.map .value)
      | some argument => (classifyAll? rest).map (argument :: ·)

end Argument

end StackingPlanner
