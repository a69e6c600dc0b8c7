import StackingPlanner.CommandLine.Run

/-!
# The program

The program reads its command line and the file of the description, carries
the command line out and writes what it leads to.
-/

namespace StackingPlanner

namespace Program

def fileCause : IO.Error → FileCause
  | .noFileOrDirectory .. => .missing
  | .inappropriateType .. => .isDirectory
  | .alreadyExists .. => .present
  | _ => .missing

def readSource (o : Options) : IO FileContent := do
  match CommandLine.sourcePath? o with
  | none => return .error .missing
  | some path =>
      try
        let bytes ← IO.FS.readBinFile path.text
        return .ok (bytes.toList.map UInt8.toNat)
      catch e => return .error (fileCause e)

/-- Make the directories on the way to the log file, if there is one. -/
def prepareLog : Option Path → IO Unit
  | some path => IO.FS.createDirAll path.parent.text
  | none => pure ()

def writeLog (records : List Record) : Option Path → IO Unit
  | none => pure ()
  | some path => do
      let now ← IO.monoMsNow
      let style : RecordStyle := { time := some (.whole (now / 1000)) }
      IO.FS.withFile path.text .append (fun file =>
        file.putStr (Response.ofLines (Response.recordLines style .debug records)))

/-- The words for a fault. -/
def faultText : Fault → String
  | .failure f => f.report.name ++ ": " ++ f.report.text
  | .misuse m => m.described.1 ++ ": " ++ m.described.2

def stop (fault : Fault) : IO UInt32 := do
  IO.eprintln (faultText fault)
  return 1

/-- Carry out options with a log file and write the response. -/
def respond (o : Options) (log : Option Path) : IO UInt32 := do
  prepareLog log
  writeLog [CommandLine.configured o] log
  match CommandLine.respond o (← readSource o) with
  | .error fault => stop fault
  | .ok r =>
      writeLog (r.records.drop 1) log
      IO.eprint r.errors
      IO.print r.output
      return r.exitCode.toUInt32

def run (o : Options) : IO UInt32 :=
  match CommandLine.logPath? o with
  | .ok log => respond o log
  | .error misuse => stop misuse

end Program

end StackingPlanner

def main (arguments : List String) : IO UInt32 := do
  match StackingPlanner.Options.ofArguments arguments with
  | .error usage =>
      IO.eprintln "usage: stacking-planner (--domain FILE | --example NAME) [options]"
      return usage.exitCode.toUInt32
  | .ok o => StackingPlanner.Program.run o
