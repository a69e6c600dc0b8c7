import StackingPlanner.OrderedSet
import StackingPlanner.Text.Quoted

/-!
# Fluents and literals

A fluent is a property of the world that holds or does not hold in a state: a
name applied to objects.  A literal is a fluent or its negation.  Fluents are
ordered by their words, literals by their fluents with the negation first.
-/

namespace StackingPlanner

/-- A property of the world: a name applied to objects. -/
structure Fluent where
  name : String
  args : List String := []
  deriving DecidableEq, Hashable, Repr, Inhabited

namespace Fluent

def words (f : Fluent) : List String := f.name :: f.args

theorem eq_of_words {f g : Fluent} (h : f.words = g.words) : f = g := by
  cases f
  cases g
  simp_all [words]

/-- Fluents are ordered as their words are. -/
instance : LT Fluent := ⟨fun f g => f.words < g.words⟩

instance : DecidableLT Fluent := fun f g => inferInstanceAs (Decidable (f.words < g.words))

instance : StrictOrder Fluent := StrictOrder.ofKey words eq_of_words Iff.rfl

/-- A name before its arguments in parentheses; a name alone has none. -/
def applied (name : String) (args : List String) : String :=
  if args.isEmpty then name else name ++ "(" ++ String.intercalate "," args ++ ")"

def text (f : Fluent) : String := applied f.name f.args

def shown (f : Fluent) : String := "Fluent(" ++ Text.quoted f.text ++ ")"

def on (object support : String) : Fluent := ⟨"on", [object, support]⟩

def clear (object : String) : Fluent := ⟨"clear", [object]⟩

def holding (object : String) : Fluent := ⟨"holding", [object]⟩

def handEmpty : Fluent := ⟨"handempty", []⟩

end Fluent

structure Literal where
  fluent : Fluent
  positive : Bool := true
  deriving DecidableEq, Hashable, Repr, Inhabited

namespace Literal

def contrary (l : Literal) : Literal := ⟨l.fluent, !l.positive⟩

/-- Literals are ordered by their fluents, and a negation comes before its fluent. -/
instance : LT Literal :=
  ⟨fun l m => l.fluent < m.fluent ∨ (l.fluent = m.fluent ∧ l.positive = false ∧ m.positive = true)⟩

instance : DecidableLT Literal := fun l m =>
  inferInstanceAs (Decidable (l.fluent < m.fluent ∨
    (l.fluent = m.fluent ∧ l.positive = false ∧ m.positive = true)))

theorem lt_def {l m : Literal} : l < m ↔
    l.fluent < m.fluent ∨ (l.fluent = m.fluent ∧ l.positive = false ∧ m.positive = true) := Iff.rfl

instance : StrictOrder Literal where
  irrefl l h := by
    rcases lt_def.1 h with h | ⟨_, h, h'⟩
    · exact StrictOrder.irrefl _ h
    · simp [h] at h'
  trans {l m n} hlm hmn := by
    rcases lt_def.1 hlm with h | ⟨h, p, q⟩ <;> rcases lt_def.1 hmn with h' | ⟨h', p', q'⟩
    · exact .inl (StrictOrder.trans h h')
    · exact .inl (h' ▸ h)
    · exact .inl (h ▸ h')
    · exact .inr ⟨h.trans h', p, q'⟩
  connected {l m} hlm hml := by
    have same : l.fluent = m.fluent :=
      StrictOrder.connected (fun h => hlm (.inl h)) (fun h => hml (.inl h))
    cases l with
    | mk f p =>
      cases m with
      | mk g q =>
        simp only at same
        subst same
        cases p <;> cases q
        · rfl
        · exact absurd (.inr ⟨rfl, rfl, rfl⟩) hlm
        · exact absurd (.inr ⟨rfl, rfl, rfl⟩) hml
        · rfl

def text (l : Literal) : String := if l.positive then l.fluent.text else "-" ++ l.fluent.text

def shown (l : Literal) : String := "Literal(" ++ Text.quoted l.text ++ ")"

def holds (f : Fluent) : Literal := ⟨f, true⟩

def fails (f : Fluent) : Literal := ⟨f, false⟩

/-- The first literal, in order, that is listed together with its negation. -/
def clash? (literals : List Literal) : Option Literal :=
  (OrderedSet.ofList literals).toList.find?
    (fun l => l.positive && decide (l.contrary ∈ literals))

end Literal

end StackingPlanner
