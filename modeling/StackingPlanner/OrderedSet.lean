/-!
# Finite sets kept as ascending lists

A set is stored as the strictly ascending list of its members, so equal sets
are equal values and every listing of a set comes out in the one order of its
element type.  The main statements describe membership after each operation
and say that membership determines the set.
-/

namespace StackingPlanner

/-- A strict order in which any two distinct elements are comparable. -/
class StrictOrder (α : Type) [LT α] : Prop where
  irrefl : ∀ a : α, ¬ a < a
  trans : ∀ {a b c : α}, a < b → b < c → a < c
  connected : ∀ {a b : α}, ¬ a < b → ¬ b < a → a = b

namespace StrictOrder

instance : StrictOrder String where
  irrefl := Std.Irrefl.irrefl
  trans := String.lt_trans
  connected := fun first second => Std.Trichotomous.trichotomous _ _ first second

instance : StrictOrder (List String) where
  irrefl := List.lt_irrefl
  trans := List.lt_trans
  connected := fun first second => Std.Trichotomous.trichotomous _ _ first second

/-- Comparing by an injective key inherits the order of the keys. -/
theorem ofKey {α β : Type} [LT α] [LT β] [StrictOrder β] (key : α → β)
    (injective : ∀ {a b : α}, key a = key b → a = b)
    (lt_iff : ∀ {a b : α}, a < b ↔ key a < key b) : StrictOrder α where
  irrefl a h := StrictOrder.irrefl (key a) (lt_iff.1 h)
  trans hab hbc := lt_iff.2 (StrictOrder.trans (lt_iff.1 hab) (lt_iff.1 hbc))
  connected hab hba :=
    injective (StrictOrder.connected (fun h => hab (lt_iff.2 h)) (fun h => hba (lt_iff.2 h)))

end StrictOrder

/-- A finite set, listed in strictly ascending order. -/
@[ext]
structure OrderedSet (α : Type) [LT α] where
  toList : List α
  ascending : toList.Pairwise (· < ·)

namespace OrderedSet

variable {α : Type} [LT α]

instance [DecidableEq α] : DecidableEq (OrderedSet α) := fun s t =>
  if h : s.toList = t.toList then isTrue (OrderedSet.ext h)
  else isFalse (fun e => h (congrArg toList e))

instance [Hashable α] : Hashable (OrderedSet α) := ⟨fun s => hash s.toList⟩

instance : Membership α (OrderedSet α) := ⟨fun s a => a ∈ s.toList⟩

instance [DecidableEq α] (a : α) (s : OrderedSet α) : Decidable (a ∈ s) :=
  inferInstanceAs (Decidable (a ∈ s.toList))

def empty : OrderedSet α := ⟨[], .nil⟩

instance : Inhabited (OrderedSet α) := ⟨empty⟩

def size (s : OrderedSet α) : Nat := s.toList.length

def isEmpty (s : OrderedSet α) : Bool := s.toList.isEmpty

/-- Put an element at its place in an ascending list, unless it is there already. -/
def place [DecidableLT α] (a : α) : List α → List α
  | [] => [a]
  | b :: rest =>
      if a < b then a :: b :: rest
      else if b < a then b :: place a rest
      else b :: rest

theorem mem_place [DecidableLT α] [StrictOrder α] {a x : α} {l : List α} :
    x ∈ place a l ↔ x = a ∨ x ∈ l := by
  induction l with
  | nil => simp [place]
  | cons b rest ih =>
      unfold place
      split
      · simp
      · split
        · simp only [List.mem_cons, ih]
          grind
        · rename_i hab hba
          have same : a = b := StrictOrder.connected hab hba
          subst same
          simp

theorem place_ascending [DecidableLT α] [StrictOrder α] {a : α} {l : List α}
    (sorted : l.Pairwise (· < ·)) : (place a l).Pairwise (· < ·) := by
  induction l with
  | nil => simp [place]
  | cons b rest ih =>
      have parts := List.pairwise_cons.1 sorted
      unfold place
      split
      · rename_i hab
        refine List.pairwise_cons.2 ⟨fun x hx => ?_, sorted⟩
        rcases List.mem_cons.1 hx with rfl | hx
        · exact hab
        · exact StrictOrder.trans hab (parts.1 x hx)
      · split
        · rename_i hba
          refine List.pairwise_cons.2 ⟨fun x hx => ?_, ih parts.2⟩
          rcases mem_place.1 hx with rfl | hx
          · exact hba
          · exact parts.1 x hx
        · exact sorted

def insert [DecidableLT α] [StrictOrder α] (a : α) (s : OrderedSet α) : OrderedSet α :=
  ⟨place a s.toList, place_ascending s.ascending⟩

def ofList [DecidableLT α] [StrictOrder α] (l : List α) : OrderedSet α := l.foldr insert empty

def filter (keep : α → Bool) (s : OrderedSet α) : OrderedSet α :=
  ⟨s.toList.filter keep, s.ascending.filter keep⟩

def insertAll [DecidableLT α] [StrictOrder α] (l : List α) (s : OrderedSet α) : OrderedSet α :=
  l.foldr insert s

theorem mem_def {a : α} {s : OrderedSet α} : a ∈ s ↔ a ∈ s.toList := Iff.rfl

@[simp]
theorem not_mem_empty (a : α) : ¬ a ∈ (empty : OrderedSet α) := List.not_mem_nil

@[simp]
theorem mem_insert [DecidableLT α] [StrictOrder α] {a x : α} {s : OrderedSet α} :
    x ∈ s.insert a ↔ x = a ∨ x ∈ s := mem_place

@[simp]
theorem mem_insertAll [DecidableLT α] [StrictOrder α] {x : α} {l : List α} {s : OrderedSet α} :
    x ∈ s.insertAll l ↔ x ∈ l ∨ x ∈ s := by
  induction l with
  | nil => simp [insertAll]
  | cons a rest ih =>
      have step : x ∈ insertAll (a :: rest) s ↔ x = a ∨ x ∈ insertAll rest s := mem_insert
      rw [step, ih, List.mem_cons, or_assoc]

@[simp]
theorem mem_ofList [DecidableLT α] [StrictOrder α] {x : α} {l : List α} :
    x ∈ ofList l ↔ x ∈ l := by
  have step : x ∈ ofList l ↔ x ∈ l ∨ x ∈ (empty : OrderedSet α) := mem_insertAll
  simpa using step

@[simp]
theorem mem_filter {x : α} {keep : α → Bool} {s : OrderedSet α} :
    x ∈ s.filter keep ↔ x ∈ s ∧ keep x = true := List.mem_filter

theorem eq_of_mem_iff [StrictOrder α] {s t : OrderedSet α} (same : ∀ x, x ∈ s ↔ x ∈ t) :
    s = t := by
  have lists : ∀ (l m : List α), l.Pairwise (· < ·) → m.Pairwise (· < ·) →
      (∀ x, x ∈ l ↔ x ∈ m) → l = m := by
    intro l
    induction l with
    | nil =>
        intro m _ _ h
        cases m with
        | nil => rfl
        | cons b _ => exact absurd ((h b).2 List.mem_cons_self) List.not_mem_nil
    | cons a l ih =>
        intro m hl hm h
        cases m with
        | nil => exact absurd ((h a).1 List.mem_cons_self) List.not_mem_nil
        | cons b m =>
            have hl' := List.pairwise_cons.1 hl
            have hm' := List.pairwise_cons.1 hm
            have head : a = b := by
              rcases List.mem_cons.1 ((h a).1 List.mem_cons_self) with e | ha
              · exact e
              · rcases List.mem_cons.1 ((h b).2 List.mem_cons_self) with e | hb
                · exact e.symm
                · exact absurd (StrictOrder.trans (hl'.1 b hb) (hm'.1 a ha))
                    (StrictOrder.irrefl a)
            subst head
            congr 1
            refine ih m hl'.2 hm'.2 (fun x => ⟨fun hx => ?_, fun hx => ?_⟩)
            · rcases List.mem_cons.1 ((h x).1 (List.mem_cons_of_mem _ hx)) with e | hx'
              · exact absurd (e ▸ hl'.1 x hx) (StrictOrder.irrefl a)
              · exact hx'
            · rcases List.mem_cons.1 ((h x).2 (List.mem_cons_of_mem _ hx)) with e | hx'
              · exact absurd (e ▸ hm'.1 x hx) (StrictOrder.irrefl a)
              · exact hx'
  exact OrderedSet.ext (lists _ _ s.ascending t.ascending same)

end OrderedSet

def sorted {α : Type} [LT α] [DecidableLT α] (l : List α) : List α :=
  l.mergeSort (fun a b => !decide (b < a))

end StackingPlanner
