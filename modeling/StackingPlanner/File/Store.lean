import StackingPlanner.File.Location
import StackingPlanner.Text.Lines

/-!
# File stores

A store holds files and directories by location.  A path is followed name by
name, and every name on the way must be that of a directory.
-/

namespace StackingPlanner

/-- A file with its bytes, or a directory with what it holds. -/
inductive FileNode where
  | file (bytes : List Nat)
  | directory (entries : List (String × FileNode))

/-- What is found under a path: bytes, or the reason why there are none. -/
abbrev FileContent := Except FileCause (List Nat)

namespace FileNode

def empty : FileNode := .directory []

/-- What is found under names from a directory on. -/
def find? (node : FileNode) : List String → Option FileNode
  | [] => some node
  | name :: rest =>
      match node with
      | .file _ => none
      | .directory entries =>
          match entries.lookup name with
          | some inner => inner.find? rest
          | none => none

/-- Put something under a name of a directory in place of what was there. -/
def setEntry (name : String) (node : FileNode) :
    List (String × FileNode) → List (String × FileNode)
  | [] => [(name, node)]
  | entry :: rest =>
      if entry.1 = name then (name, node) :: rest else entry :: setEntry name node rest

def put (node new : FileNode) : List String → FileNode
  | [] => new
  | name :: rest =>
      match node with
      | .file bytes => .file bytes
      | .directory entries =>
          .directory (setEntry name (put ((entries.lookup name).getD empty) new rest) entries)

end FileNode

/-- The directories from which locations are counted, with what they hold. -/
structure FileStore where
  origins : List (Origin × FileNode) := []

namespace FileStore

def origin (store : FileStore) (o : Origin) : FileNode :=
  (store.origins.lookup o).getD FileNode.empty

def find? (store : FileStore) (l : Location) : Option FileNode :=
  (store.origin l.origin).find? l.names

def put (store : FileStore) (l : Location) (node : FileNode) : FileStore where
  origins :=
    (l.origin, (store.origin l.origin).put node l.names) ::
      store.origins.filter (fun entry => entry.1 ≠ l.origin)

def enter (store : FileStore) (l : Location) (name : String) : Except FileCause Location :=
  match store.find? l with
  | none => .error .missing
  | some (.file _) => .error .notDirectory
  | some (.directory _) => if Path.isLongName name then .error .nameTooLong else .ok (l.enter name)

/-- The location that a path leads to, at which there need not be anything. -/
def follow (store : FileStore) (path : Path) : Except FileCause Location :=
  if path.isLong then .error .nameTooLong
  else path.names.foldlM store.enter (Location.start path)

def node (store : FileStore) (path : Path) : Except FileCause FileNode := do
  match store.find? (← store.follow path) with
  | some node => return node
  | none => throw .missing

def read (store : FileStore) (path : Path) : FileContent := do
  match ← store.node path with
  | .file bytes => return bytes
  | .directory _ => throw .isDirectory

def makeDirectory (store : FileStore) (path : Path) : Except FileCause FileStore := do
  let place ← store.follow path
  match store.find? place with
  | some _ => throw .present
  | none => return store.put place .empty

/-- Make one directory at a path unless there is one. -/
def ensureDirectory (store : FileStore) (path : Path) : Except FileCause FileStore :=
  match store.makeDirectory path with
  | .ok made => .ok made
  | .error .missing => .error .missing
  | .error cause =>
      match store.node path with
      | .ok (.directory _) => .ok store
      | _ => .error cause

def mostLevels : Nat := 985

/-- Make a directory at a path and those on the way to it, within a number of levels. -/
def makeDirectories (store : FileStore) (path : Path) : Nat → Except Misuse FileStore
  | 0 => .error .tooDeep
  | levels + 1 =>
      let settle (made : Except FileCause FileStore) : Except Misuse FileStore :=
        match made with
        | .ok store => .ok store
        | .error cause => .error (.logFile cause)
      match store.ensureDirectory path with
      | .error .missing => do
          let store ← store.makeDirectories path.parent levels
          settle (store.ensureDirectory path)
      | made => settle made

def append (store : FileStore) (place : Location) (text : String) : FileStore :=
  let before := match store.find? place with
    | some (.file bytes) => bytes
    | _ => []
  store.put place (.file (before ++ text.toUTF8.toList.map UInt8.toNat))

/-- Open a file for adding to it, making the directories on the way to it. -/
def openLog (store : FileStore) (path : Path) : Except Misuse (FileStore × Location) := do
  path.parent.check
  let store ← store.makeDirectories path.parent mostLevels
  path.check
  let place := Location.ofPath path
  match store.find? place with
  | some (.directory _) => throw (.logFile .isDirectory)
  | some (.file _) => return (store, place)
  | none =>
      if path.isLong || Path.isLongName path.name then throw (.logFile .nameTooLong)
      return (store.append place "", place)

def readLines (store : FileStore) (path : Path) : Except Misuse (List (List Char)) := do
  path.check
  match store.read path with
  | .error cause => throw (.logFile cause)
  | .ok bytes =>
      match Text.decodeUtf8 bytes with
      | .error e => throw (.undecodable e)
      | .ok cs => return Text.lines (Text.normalLines cs)

end FileStore

end StackingPlanner
