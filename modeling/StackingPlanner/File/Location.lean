import StackingPlanner.File.Path

/-!
# Locations

A location is a place where a file or a directory may be.  A path leads to one
location, name by name, where two dots lead back to the directory before.
-/

namespace StackingPlanner

/-- A directory from which locations are counted. -/
inductive Origin where
  | root
  /-- The directory that is a number of levels above the working directory. -/
  | working (above : Nat)
  deriving DecidableEq, Repr

/-- The names of the directories on the way from an origin, and the last name. -/
structure Location where
  origin : Origin
  names : List String
  deriving DecidableEq, Repr

namespace Location

/-- The directory that holds a location; the root holds itself. -/
def parent (l : Location) : Location :=
  match l.names, l.origin with
  | [], .root => l
  | [], .working above => ⟨.working (above + 1), []⟩
  | names, origin => ⟨origin, names.dropLast⟩

def enter (l : Location) (name : String) : Location :=
  if name = ".." then l.parent else { l with names := l.names ++ [name] }

def start (p : Path) : Location := ⟨if p.root = "" then .working 0 else .root, []⟩

/-- The location that a path leads to if all directories on the way are there. -/
def ofPath (p : Path) : Location := p.names.foldl enter (start p)

end Location

end StackingPlanner
