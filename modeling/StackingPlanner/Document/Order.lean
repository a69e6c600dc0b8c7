import StackingPlanner.Document.Conversion

/-!
# The order of values

Numbers are compared by their exact values, texts by code point, and lists by
the first items that differ.  Values of other kinds have no order.
-/

namespace StackingPlanner

/-- What comes of comparing two values. -/
inductive Comparison where
  | ordered (order : Ordering)
  /-- A number is undefined, and so neither value is above the other. -/
  | undefined
  /-- Values of these kinds have no order. -/
  | impossible
  deriving DecidableEq, Repr

namespace Value

mutual

def compare : Value → Value → Comparison
  | .text s, .text t => .ordered (if s < t then .lt else if t < s then .gt else .eq)
  | .list l, .list m => compareItems l m
  | a, b =>
      match a.number?, b.number? with
      | some n, some m => ((n.compare? m).map Comparison.ordered).getD .undefined
      | _, _ => .impossible

/-- Compare two lists by the first items that differ; a list comes before its extensions. -/
def compareItems : List Value → List Value → Comparison
  | [], [] => .ordered .eq
  | [], _ :: _ => .ordered .lt
  | _ :: _, [] => .ordered .gt
  | a :: l, b :: m =>
      if a.key = b.key ∧ a.equalsItself then compareItems l m else compare a b

end

end Value

end StackingPlanner
