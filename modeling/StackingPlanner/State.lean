import StackingPlanner.Misuse

/-!
# States

A state says of every fluent of its scope whether it holds.  Only the fluents
that hold are stored, so of a fluent and its negation always exactly one holds.
-/

namespace StackingPlanner

/-- The fluents that hold, and the scope of fluents that are spoken about. -/
structure State where
  scope : OrderedSet Fluent
  facts : OrderedSet Fluent
  deriving DecidableEq, Inhabited

namespace State

def isTrue (s : State) (f : Fluent) : Bool := decide (f ∈ s.facts)

def holds (s : State) (l : Literal) : Bool := s.isTrue l.fluent == l.positive

def satisfies (s : State) (literals : List Literal) : Bool := literals.all s.holds

def missing (s : State) (literals : List Literal) : List Literal :=
  sorted (literals.filter (fun l => !s.holds l))

/-- The whole assignment: one literal for each fluent of the scope. -/
def literals (s : State) : List Literal := s.scope.toList.map (fun f => ⟨f, s.isTrue f⟩)

def strays (s : State) : OrderedSet Fluent := s.facts.filter (fun f => !decide (f ∈ s.scope))

def agrees (s t : State) : Bool := decide (s.facts = t.facts)

def text (s : State) (separator : String) : String :=
  if s.facts.isEmpty then "Empty State"
  else String.intercalate separator (s.facts.toList.map Fluent.text)

def line (s : State) : String := s.text ", "

def shown (s : State) : String := "State(" ++ s.line ++ ")"

def checkScope (s : State) (step : Value) : Except Failure Unit :=
  if s.strays.isEmpty then .ok ()
  else .error (.strayFluents (sorted (s.strays.toList.map Fluent.text)) step (s.text "\n"))

/--
The state in which exactly the positive literals of a list hold.  Every literal
must be within the scope, and no literal may be listed with its contrary.
-/
def ofLiterals (literals : List Literal) (scope : OrderedSet Fluent) : Except Failure State :=
  match literals.find? (fun l => !decide (l.fluent ∈ scope)) with
  | some l => .error (.fluentOutside l.fluent)
  | none =>
      match Literal.clash? literals with
      | some l => .error (.contradiction "initial literal set" l)
      | none =>
          .ok ⟨scope, OrderedSet.ofList ((literals.filter (·.positive)).map (·.fluent))⟩

end State

end StackingPlanner
