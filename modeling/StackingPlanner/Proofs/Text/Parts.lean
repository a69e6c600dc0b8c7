import StackingPlanner.Text.Blank
import Mathlib.Tactic.Common

/-!
# Parts of texts

A text is divided where characters of some kind end, texts are joined with another
one between them, and blanks around a text are dropped.
-/

namespace StackingPlanner

/-! ## Joined texts -/

/-- What holds of all elements of some lists and of one between them holds when they are joined. -/
theorem List.forall_mem_intercalate {α : Type} {p : α → Prop} {between : List α}
    {parts : List (List α)} (inBetween : ∀ a ∈ between, p a)
    (each : ∀ part ∈ parts, ∀ a ∈ part, p a) : ∀ a ∈ between.intercalate parts, p a := by
  induction parts with
  | nil => simp
  | cons first rest ih =>
      obtain ⟨here, others⟩ := List.forall_mem_cons.mp each
      have later := ih others
      cases rest with
      | nil => simpa using here
      | cons next more =>
          rw [List.intercalate_cons_cons]
          exact List.forall_mem_append.mpr ⟨List.forall_mem_append.mpr ⟨here, inBetween⟩, later⟩

theorem List.forall_head?_intercalate {first : Char → Prop} {parts : List (List Char)}
    (filled : parts ≠ [])
    (each : ∀ part ∈ parts, ∀ tail, ∀ d ∈ (part ++ tail).head?, first d)
    (between tail : List Char) : ∀ d ∈ (between.intercalate parts ++ tail).head?, first d := by
  cases parts with
  | nil => exact absurd rfl filled
  | cons part others =>
      have here := each part List.mem_cons_self
      cases others with
      | nil =>
          rw [List.intercalate_singleton]
          exact here tail
      | cons next more =>
          rw [List.intercalate_cons_cons, List.append_assoc, List.append_assoc]
          exact here _

namespace Text

variable {before after cs : List Char}

/-! ## Where characters of a kind end -/

def StopsAt (isOf : Char → Bool) (cs : List Char) : Prop := ∀ c ∈ cs.head?, isOf c = false

theorem stopsAt_dropWhile (isOf : Char → Bool) (cs : List Char) :
    StopsAt isOf (cs.dropWhile isOf) := by
  intro c first
  have stops := List.head?_dropWhile_not isOf cs
  rw [Option.mem_def.mp first] at stops
  exact stops

theorem dropWhile_of_stopsAt {isOf : Char → Bool} (stops : StopsAt isOf cs) :
    cs.dropWhile isOf = cs := by
  cases cs with
  | nil => rfl
  | cons c rest => exact List.dropWhile_cons_of_neg (by simp [stops c rfl])

theorem takeWhile_of_stopsAt {isOf : Char → Bool} (stops : StopsAt isOf cs) :
    cs.takeWhile isOf = [] := by
  cases cs with
  | nil => rfl
  | cons c rest => exact List.takeWhile_cons_of_neg (by simp [stops c rfl])

/-! ## Blanks -/

def Blank (cs : List Char) : Prop := ∀ c ∈ cs, isBlank c = true

theorem blank_nil : Blank [] := by
  simp [Blank]

theorem blank_takeWhile (cs : List Char) : Blank (cs.takeWhile isBlank) :=
  List.all_eq_true.mp List.all_takeWhile

theorem Blank.append (blank : Blank before) (trailing : Blank after) : Blank (before ++ after) :=
  List.forall_mem_append.mpr ⟨blank, trailing⟩

theorem Blank.reverse (blank : Blank cs) : Blank cs.reverse :=
  fun c member => blank c (List.mem_reverse.mp member)

/-- The blanks before a text are dropped, if it does not begin with one. -/
theorem dropBlanks_append (blank : Blank before) (stops : StopsAt isBlank cs) :
    dropBlanks (before ++ cs) = cs := by
  rw [dropBlanks, List.dropWhile_append_of_pos blank]
  exact dropWhile_of_stopsAt stops

theorem exists_blank (cs : List Char) : ∃ before, Blank before ∧ cs = before ++ dropBlanks cs :=
  ⟨_, blank_takeWhile cs, List.takeWhile_append_dropWhile.symm⟩

theorem dropBlanks_eq_nil_iff : dropBlanks cs = [] ↔ Blank cs := by
  constructor
  · intro none
    obtain ⟨before, blank, split⟩ := exists_blank cs
    rw [split, none, List.append_nil]
    exact blank
  · intro blank
    have stops : StopsAt isBlank [] := by simp [StopsAt]
    simpa using dropBlanks_append blank stops

/-- What is left of a text after trimming stood between blanks. -/
theorem exists_trim (cs : List Char) :
    ∃ before after, Blank before ∧ Blank after ∧ cs = before ++ trim cs ++ after := by
  obtain ⟨before, blank, split⟩ := exists_blank cs
  obtain ⟨ending, trailing, rest⟩ := exists_blank (dropBlanks cs).reverse
  refine ⟨before, ending.reverse, blank, trailing.reverse, ?_⟩
  have same : trim cs = (dropBlanks (dropBlanks cs).reverse).reverse := rfl
  rw [List.append_assoc, same, ← List.reverse_append, ← rest, List.reverse_reverse]
  exact split

theorem trim_eq (blank : Blank before) (trailing : Blank after)
    (solid : ∀ c ∈ cs, isBlank c = false) : trim (before ++ cs ++ after) = cs := by
  cases cs with
  | nil =>
      have all : Blank (before ++ [] ++ after) := (blank.append blank_nil).append trailing
      have same : trim (before ++ [] ++ after) =
          (dropBlanks (dropBlanks (before ++ [] ++ after)).reverse).reverse := rfl
      rw [same, dropBlanks_eq_nil_iff.mpr all]
      rfl
  | cons first rest =>
      have head : StopsAt isBlank (first :: rest ++ after) := by
        rintro c ⟨⟩
        exact solid _ List.mem_cons_self
      have last : StopsAt isBlank (first :: rest).reverse := by
        intro c final
        exact solid c (List.mem_reverse.mp (List.mem_of_mem_head? final))
      have same : trim (before ++ (first :: rest) ++ after) =
          (dropBlanks (dropBlanks (before ++ (first :: rest) ++ after)).reverse).reverse := rfl
      rw [same, List.append_assoc, dropBlanks_append blank head, List.reverse_append,
        dropBlanks_append trailing.reverse last, List.reverse_reverse]

theorem trim_eq_nil_iff : trim cs = [] ↔ Blank cs := by
  constructor
  · intro none
    obtain ⟨before, after, blank, trailing, split⟩ := exists_trim cs
    rw [split, none, List.append_nil]
    exact blank.append trailing
  · intro blank
    have solid : ∀ c ∈ ([] : List Char), isBlank c = false := by simp
    simpa using trim_eq blank blank_nil solid

end Text

end StackingPlanner
