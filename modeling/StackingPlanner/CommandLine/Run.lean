import StackingPlanner.CommandLine.Options
import StackingPlanner.Description.File
import StackingPlanner.Explanation
import StackingPlanner.Journal.Planning
import StackingPlanner.Proof.Listing

/-!
# Running a command line

A command line is carried out in one pass: the description is loaded, the
planner is set up, the problem is solved and the finding is printed.  What was
recorded on the way is kept with the response.
-/

namespace StackingPlanner

/-- What carrying out a command line leads to. -/
structure Response where
  exitCode : Nat
  output : String
  errors : String
  records : List Record

namespace Response

def ofLines (lines : List String) : String := String.join (lines.map (· ++ "\n"))

def recordLines (style : RecordStyle) (threshold : Level) (records : List Record) : List String :=
  (records.filter (fun r => r.level.passes threshold)).map (Record.line style)

end Response

namespace CommandLine

/-- The path of the file that a description is read from. -/
def sourcePath? (o : Options) : Option Path :=
  match o.source with
  | some (.file (.text path)) => if path = "" then none else some (Path.ofText path)
  | _ => none

/-- The name of the example that is asked for; null if it is none. -/
def sampleName (o : Options) : Value :=
  match o.source with
  | some (.sample name) => name
  | _ => .null

/-- The description that is asked for, given what is found under its path. -/
def description (o : Options) (content : FileContent) : Except Fault Description :=
  match sourcePath? o with
  | some path => Description.ofFile path content
  | none =>
      match Puzzle.sampleNamed (sampleName o) none with
      | .ok d => .ok d
      | .error misuse => .error misuse

def withHorizon (o : Options) (d : Description) : Description :=
  match o.horizon with
  | .null => d
  | horizon => d.withHorizon horizon

def planner (o : Options) : Except Fault Planner := do
  let budget ← Budget.make o.maxNodes o.timeLimit
  Planner.make { budget } o.workers

def level (o : Options) : Level := o.logLevel.getD .warning

def configured (o : Options) : Record :=
  Channel.record { name := "planner.logging" } .debug "Logging configured"
    [("console_level", .text (level o).name),
      ("log_file", if o.logFile.counts then o.logFile else .null)]

def loadedRecords (o : Options) (d : Description) : List Record :=
  match sourcePath? o with
  | some path => [Journal.loaded path d]
  | none => []

def timelineLines (t : Timeline) : List String :=
  (t.states.zipIdx 1).map (fun entry =>
    "  [" ++ toString entry.2 ++ "] " ++ entry.1.line)

def verdictLines (finding : Finding) (withTimeline : Bool) : List String :=
  match finding.verdict with
  | .success t =>
      ["Plan (" ++ toString t.plan.length ++ " actions, horizon " ++
          toString finding.problem.horizon ++ "):"] ++
        t.plan.lines.map ("  " ++ ·) ++
        ["Goal first reached at step " ++
          (Value.orNull (fun n : Nat => .whole n) finding.goalReachedAt).display] ++
        (if withTimeline then timelineLines t else [])
  | .aborted reason => ["Aborted: " ++ reason.text]
  | .noPlan => []

def statisticsLine (statistics : Statistics) : String :=
  "Statistics: " ++ String.intercalate ", "
    (statistics.entries.map (fun e => e.1 ++ "=" ++ e.2.plain))

def findingLines (finding : Finding) (withTimeline : Bool) : List String :=
  ["Status: " ++ finding.verdict.text] ++ verdictLines finding withTimeline ++
    [statisticsLine finding.statistics]

def explanationLines (d : Description) (finding : Finding) : Except Misuse (List String) := do
  return ["", ← (Explanation.explain finding d.name).listing true]

def output (o : Options) (d : Description) (finding : Finding) : Except Misuse String :=
  if o.json then .ok (Response.ofLines [(finding.toValue o.timeline).write])
  else do
    let explanation ← if o.explain then explanationLines d finding else .ok []
    return Response.ofLines (findingLines finding o.timeline ++ explanation)

def exitCode : Verdict → Nat
  | .success _ => 0
  | .noPlan => 1
  | .aborted _ => 3

/-- The response to a failure: a message if it blames the description. -/
def rejected (o : Options) (records : List Record) (failure : Failure) : Except Fault Response :=
  if failure.report.isConfiguration then
    .ok
      { exitCode := 2
        output := ""
        errors := Response.ofLines
          (Response.recordLines {} (level o) records ++ [failure.report.detailed])
        records }
  else .error failure

def stopped (o : Options) (records : List Record) : Fault → Except Fault Response
  | .failure failure => rejected o records failure
  | .misuse misuse => .error misuse

/--
The response to a finding.  Its text is taken to be printed whatever it holds,
though a stream that is encoded strictly refuses names with lone surrogates.
-/
def answered (o : Options) (d : Description) (records : List Record) (finding : Finding) :
    Except Misuse Response := do
  return {
    exitCode := exitCode finding.verdict
    output := ← output o d finding
    errors := Response.ofLines (Response.recordLines {} (level o) records)
    records := records }

def solve (o : Options) (records : List Record) (d : Description) (planner : Planner) :
    Except Fault Response :=
  let records := records ++ Journal.problemRecords d
  match d.problem with
  | .error failure => rejected o records failure
  | .ok problem =>
      match planner.explore problem with
      | .error fault => stopped o records fault
      | .ok exploration =>
          match answered o d (records ++ Journal.solveRecords planner problem exploration)
            (Planner.finding problem exploration) with
          | .ok response => .ok response
          | .error misuse => .error misuse

/-- The response to options, given what is found under the path of their description. -/
def respond (o : Options) (content : FileContent) : Except Fault Response :=
  match description o content with
  | .error fault => stopped o [configured o] fault
  | .ok d =>
      let records := configured o :: loadedRecords o d
      match planner o with
      | .error fault => stopped o records fault
      | .ok p => solve o records (withHorizon o d) p

/-- The path of the log file, if one is asked for; a level must be asked for, too. -/
def logPath? (o : Options) : Except Misuse (Option Path) :=
  match o.logLevel, o.logFile with
  | some _, .null => .ok none
  | some _, .text path => .ok (some (Path.ofText path))
  | _, _ => .error .mismatch

def openLog (o : Options) (store : FileStore) : Except Misuse (FileStore × Option Location) := do
  match ← logPath? o with
  | some path =>
      let (store, place) ← store.openLog path
      return (store, some place)
  | none => return (store, none)

def log (store : FileStore) (place : Option Location) (style : RecordStyle)
    (records : List Record) : FileStore :=
  match place with
  | some place => store.append place (Response.ofLines (Response.recordLines style .debug records))
  | none => store

def source (o : Options) (store : FileStore) : FileContent :=
  match sourcePath? o with
  | some path => store.read path
  | none => .error .missing

/--
Carry out a command line over a store.  That the journal was set up is logged
before the description is read, so a description may be spoilt by the log.
-/
def run (o : Options) (style : RecordStyle) (store : FileStore) :
    Except Fault (Response × FileStore) :=
  match openLog o store with
  | .error misuse => .error misuse
  | .ok (store, place) =>
      let store := log store place style [configured o]
      match respond o (source o store) with
      | .error fault => .error fault
      | .ok response => .ok (response, log store place style (response.records.drop 1))

end CommandLine

end StackingPlanner
