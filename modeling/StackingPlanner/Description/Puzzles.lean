import StackingPlanner.Description.Basic
import StackingPlanner.Misuse

/-!
# Puzzles

Two families of stacking puzzles, each with an example.  In the first, pieces
and caps are moved over fixed slots; in the second, discs that are spread over
pegs are built into one tower.
-/

namespace StackingPlanner

namespace Puzzle

/-- Where objects rest: pairs of an object and its support. -/
abbrev Placing := List (String × String)

def literals (placing : Placing) : List Literal :=
  sorted (placing.map (fun p => Literal.holds (.on p.1 p.2)))

def move (placing : Placing) (object support : String) : Placing :=
  placing.filter (fun p => p.1 ≠ object) ++ [(object, support)]

def takeNames (value : Value) : Except Misuse (List String) := do
  (← value.takeItems).mapM Value.takeText

def takePlacing : Value → Except Misuse Placing
  | .object entries => entries.mapM (fun entry => do return (entry.1, ← entry.2.takeText))
  | _ => .error .noEntries

def declare (category : String) (names : List String) : List DomainObject :=
  names.map (fun name => ⟨name, category⟩)

namespace SlotBlocks

/-- Pieces and slots carry a piece or a cap, caps carry nothing, and slots are fixed. -/
def categories : List CategoryDeclaration :=
  [⟨"piece", .whole 1, OrderedSet.ofList ["piece", "cap"], .bool true⟩,
    ⟨"cap", .whole 0, OrderedSet.empty, .bool true⟩,
    ⟨"slot", .whole 1, OrderedSet.ofList ["piece", "cap"], .bool false⟩]

/-- The puzzle of moving pieces and caps over slots from one placing to another. -/
def description (pieces caps slots : List String) (initial goal : Placing) (horizon : Value)
    (name : Value) : Description where
  categories := categories
  objects := declare "piece" pieces ++ declare "cap" caps ++ declare "slot" slots
  initial := literals initial
  goal := literals goal
  horizon := horizon
  name := name

/-- The puzzle with pieces, caps, slots and placings that are given as values. -/
def ofValues (pieces caps slots initial goal horizon name : Value) :
    Except Misuse Description := do
  let pieces ← takeNames pieces
  let caps ← takeNames caps
  let slots ← takeNames slots
  let initial ← takePlacing initial
  let goal ← takePlacing goal
  return description pieces caps slots initial goal horizon name

def defaultName : Value := .text "slot_blocks"

def sample (horizon : Value) : Description :=
  description ["A", "B", "C"] ["X"] ["slot1", "slot2", "slot3", "slot4"]
    [("A", "slot1"), ("B", "A"), ("X", "B"), ("C", "slot2")]
    [("C", "slot3"), ("B", "C"), ("A", "B"), ("X", "A")] horizon defaultName

end SlotBlocks

namespace Tower

/-- Discs and pegs carry a disc, and pegs are fixed. -/
def categories : List CategoryDeclaration :=
  [⟨"disc", .whole 1, OrderedSet.ofList ["disc"], .bool true⟩,
    ⟨"peg", .whole 1, OrderedSet.ofList ["disc"], .bool false⟩]

/-- Every disc of a tower on the one below it, the discs being listed from top to bottom. -/
def stacked (placing : Placing) : List String → Placing
  | upper :: lower :: rest => stacked (move placing upper lower) (lower :: rest)
  | _ => placing

/-- The peg of the tower: the one that is wanted, or the last one. -/
def targetPeg (pegs : List String) (wanted : Option String) : Except Misuse String :=
  match wanted.filter (· ≠ "") with
  | some peg => .ok peg
  | none =>
      match pegs.getLast? with
      | some peg => .ok peg
      | none => .error .listIndex

/-- The discs of the tower from top to bottom: in the order that is wanted, or as declared. -/
def towerOrder (discs : List String) (wanted : Option (List String)) : List String :=
  match wanted with
  | some (disc :: rest) => disc :: rest
  | _ => discs

def tower (order : List String) (peg : String) : Except Misuse Placing :=
  match order.getLast? with
  | some bottom => .ok (stacked [(bottom, peg)] order)
  | none => .error .listIndex

def description (discs pegs : List String) (initial : Placing) (horizon : Value)
    (wantedPeg : Option String) (wantedOrder : Option (List String)) (name : Value) :
    Except Misuse Description := do
  let peg ← targetPeg pegs wantedPeg
  let goal ← tower (towerOrder discs wantedOrder) peg
  return {
    categories := categories
    objects := declare "disc" discs ++ declare "peg" pegs
    initial := literals initial
    goal := literals goal
    horizon := horizon
    name := name }

/-- The last item of a list or the last character of a text. -/
def lastItem : Value → Except Misuse Value
  | .list items =>
      match items.getLast? with
      | some item => .ok item
      | none => .error .listIndex
  | .text s =>
      match s.toList.getLast? with
      | some c => .ok (.text (String.singleton c))
      | none => .error .textIndex
  | .object _ => .error (.missingKey (.whole (-1)))
  | _ => .error .mismatch

/-- The puzzle with all its parts given as values; what does not count is not wanted. -/
def ofValues (discs pegs initial horizon wantedPeg wantedOrder name : Value) :
    Except Misuse Description := do
  let peg ← if wantedPeg.counts then .ok wantedPeg else lastItem pegs
  let order ← takeNames (if wantedOrder.counts then wantedOrder else discs)
  if order.isEmpty then throw .listIndex
  let peg ← peg.takeText
  let discs ← takeNames discs
  let pegs ← takeNames pegs
  let initial ← takePlacing initial
  description discs pegs initial horizon (some peg) (some order) name

def defaultName : Value := .text "tower_puzzle"

def sample (horizon : Value) : Except Misuse Description :=
  description ["a", "b", "c", "d"] ["peg1", "peg2", "peg3"]
    [("a", "peg1"), ("d", "peg2"), ("b", "d"), ("c", "peg3")] horizon none none defaultName

end Tower

def sampleNames : List String := ["blocks", "tower"]

/-- The example with a name, at a horizon of its own unless one is given. -/
def sampleNamed (name : Value) (horizon : Option Value) : Except Misuse Description :=
  match name with
  | .text "blocks" => .ok (SlotBlocks.sample (horizon.getD (.whole 11)))
  | .text "tower" => Tower.sample (horizon.getD (.whole 13))
  | .list _ => .error .mismatch
  | .object _ => .error .mismatch
  | _ => .error (.missingKey name)

end Puzzle

end StackingPlanner
