import StackingPlanner.CommandLine.Argument
import StackingPlanner.Description.Puzzles
import StackingPlanner.Journal.Record
import StackingPlanner.Number.Numeral

/-!
# Command-line options

The options say where the description comes from, how it is solved and what is
printed.  Of an option that is given twice the last value counts.
-/

namespace StackingPlanner

/-- Where a description comes from: values that should be texts. -/
inductive Source where
  | file (path : Value)
  | sample (name : Value)

/-- The options of a command line; an option without a value of its own is null. -/
structure Options where
  source : Option Source := none
  horizon : Value := .null
  maxNodes : Value := .null
  timeLimit : Value := .null
  workers : Value := .whole 1
  json : Bool := false
  timeline : Bool := false
  explain : Bool := false
  /-- The level that the console is set to, unless the option was emptied. -/
  logLevel : Option Level := some .warning
  logFile : Value := .null

/-- Why a command line is not carried out. -/
inductive Usage where
  | help
  | wrong
  deriving DecidableEq, Repr

def Usage.exitCode : Usage → Nat
  | .help => 0
  | .wrong => 2

namespace Options

def consoleLevels : List Level := [.debug, .info, .warning, .error]

/-- Take a description from a file, unless an example is asked for as well. -/
def takeFile (o : Options) (path : Value) : Option Options :=
  match o.source with
  | some (.sample _) => none
  | _ => some { o with source := some (.file path) }

def takeSample (o : Options) (name : Value) : Option Options :=
  match o.source with
  | some (.file _) => none
  | _ => some { o with source := some (.sample name) }

def takeValue (o : Options) (name : OptionName) (value : String) : Option Options :=
  match name with
  | .domain => o.takeFile (.text value)
  | .sample => if Puzzle.sampleNames.contains value then o.takeSample (.text value) else none
  | .horizon => (Number.readWhole? value).map (fun n => { o with horizon := .whole n })
  | .maxNodes => (Number.readWhole? value).map (fun n => { o with maxNodes := .whole n })
  | .timeLimit => (Number.readReal? value).map (fun x => { o with timeLimit := .real x })
  | .workers => (Number.readWhole? value).map (fun n => { o with workers := .whole n })
  | .logLevel =>
      (consoleLevels.find? (fun level => level.name = value)).map
        (fun level => { o with logLevel := some level })
  | .logFile => some { o with logFile := .text value }
  | _ => none

/-- An option to which two dashes are joined is emptied: its value is a list without items. -/
def emptied : Value := .list []

def empty (o : Options) (name : OptionName) : Option Options :=
  match name with
  | .domain => o.takeFile emptied
  | .sample => o.takeSample emptied
  | .horizon => some { o with horizon := emptied }
  | .maxNodes => some { o with maxNodes := emptied }
  | .timeLimit => some { o with timeLimit := emptied }
  | .workers => some { o with workers := emptied }
  | .logLevel => some { o with logLevel := none }
  | .logFile => some { o with logFile := emptied }
  | _ => none

def takeJoined (o : Options) (name : OptionName) (value : String) : Option Options :=
  if value = "--" then o.empty name else o.takeValue name value

def takeFlag (o : Options) (name : OptionName) : Options :=
  match name with
  | .json => { o with json := true }
  | .timeline => { o with timeline := true }
  | .explain => { o with explain := true }
  | _ => o

/--
Whether the short option for help asks for help with the characters that are
joined to it, which may only repeat it, with or without an equals sign.
-/
def asksForHelp (joined : List Char) : Bool :=
  match joined with
  | '=' :: value => !value.isEmpty && value.all (· = 'h')
  | joined => joined.all (· = 'h')

/--
Take arguments in turn.  Arguments that are left over make the whole usage
wrong, but only after all others were taken.
-/
def take (o : Options) (leftOver : Bool) : List Argument → Except Usage Options
  | [] => if leftOver || o.source.isNone then .error .wrong else .ok o
  | .shortHelp joined :: _ => .error (if asksForHelp joined then .help else .wrong)
  | .option name (some joined) :: rest =>
      if name.takesValue then
        match o.takeJoined name joined with
        | some o => take o leftOver rest
        | none => .error .wrong
      else .error .wrong
  | .option name none :: .value text :: rest =>
      if name.takesValue then
        match o.takeValue name text with
        | some o => take o leftOver rest
        | none => .error .wrong
      else if name = .help then .error .help
      else take (o.takeFlag name) true rest
  | .option name none :: rest =>
      if name.takesValue then .error .wrong
      else if name = .help then .error .help
      else take (o.takeFlag name) leftOver rest
  | .value _ :: rest => take o true rest
  | .separator :: rest => take o true rest
  | .unknown :: rest => take o true rest

def ofArguments (arguments : List String) : Except Usage Options :=
  match Argument.classifyAll? arguments with
  | some classified => take {} false classified
  | none => .error .wrong

end Options

end StackingPlanner
