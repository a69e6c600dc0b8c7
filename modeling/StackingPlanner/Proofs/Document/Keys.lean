import StackingPlanner.Document.Reader
import Mathlib.Data.List.Nodup

/-!
# Each key once

An object of a document has each of its keys once, and so have the objects
within it.  Reading gives no other documents: an entry whose key came before
takes the place of the earlier one.  What is looked up under a key is what was
set last.  That reading gives only values of some sort is shown once for every
sort that containers get from what is in them.
-/

namespace StackingPlanner

namespace Entries

variable {entries updates : Entries} {key k : String} {value : Value}

def keys (entries : Entries) : List String := entries.map (·.1)

theorem keys_cons (entry : String × Value) (rest : Entries) :
    keys (entry :: rest) = entry.1 :: keys rest := rfl

theorem setAll_cons (update : String × Value) (rest : Entries) :
    setAll entries (update :: rest) = setAll (set update.1 update.2 entries) rest := rfl

theorem mem_of_get? (found : entries.get? key = some value) : (key, value) ∈ entries := by
  obtain ⟨before, after, shape, -⟩ := List.lookup_eq_some_iff.mp found
  rw [shape]
  exact List.mem_append_right before List.mem_cons_self

theorem mem_keys_set_iff : k ∈ keys (set key value entries) ↔ k = key ∨ k ∈ keys entries := by
  induction entries with
  | nil => simp [set, keys]
  | cons entry rest ih =>
      unfold set
      split
      · rename_i same
        simp only [keys, List.map_cons, List.mem_cons, same, or_self_left]
      · rw [keys_cons, keys_cons, List.mem_cons, List.mem_cons, ih, or_left_comm]

theorem nodup_keys_set (once : (keys entries).Nodup) : (keys (set key value entries)).Nodup := by
  induction entries with
  | nil => exact List.nodup_singleton key
  | cons entry rest ih =>
      obtain ⟨new, others⟩ := List.nodup_cons.mp once
      unfold set
      split
      · rename_i same
        exact List.nodup_cons.mpr ⟨same ▸ new, others⟩
      · rename_i other
        refine List.nodup_cons.mpr ⟨fun member => ?_, ih others⟩
        rcases mem_keys_set_iff.mp member with same | later
        · exact other same
        · exact new later

/-- Whatever is under a key afterwards was set or was there before. -/
theorem mem_set {entry : String × Value} (member : entry ∈ set key value entries) :
    entry = (key, value) ∨ entry ∈ entries := by
  induction entries with
  | nil => exact .inl (List.mem_singleton.mp member)
  | cons first rest ih =>
      unfold set at member
      split at member
      · exact (List.mem_cons.mp member).imp_right (List.mem_cons_of_mem first)
      · rcases List.mem_cons.mp member with rfl | later
        · exact .inr List.mem_cons_self
        · exact (ih later).imp_right (List.mem_cons_of_mem first)

theorem set_of_not_mem (new : key ∉ keys entries) :
    set key value entries = entries ++ [(key, value)] := by
  induction entries with
  | nil => rfl
  | cons entry rest ih =>
      obtain ⟨other, later⟩ := not_or.mp (List.mem_cons.not.mp new)
      rw [set, if_neg (Ne.symm other), ih later, List.cons_append]

/-- Entries with keys that are all new are put after the others in their order. -/
theorem setAll_of_nodup (once : (keys (entries ++ updates)).Nodup) :
    setAll entries updates = entries ++ updates := by
  induction updates generalizing entries with
  | nil => exact (List.append_nil entries).symm
  | cons update rest ih =>
      have shape : entries ++ update :: rest = entries ++ [update] ++ rest := by simp
      have new : update.1 ∉ keys entries := by
        rw [keys, List.map_append, List.nodup_append] at once
        exact fun member => once.2.2 _ member _ List.mem_cons_self rfl
      rw [setAll_cons, set_of_not_mem new, shape, ih (shape ▸ once)]

/-! ## Looking up -/

theorem get?_cons (entry : String × Value) (rest : Entries) (k : String) :
    get? (entry :: rest) k = if k = entry.1 then some entry.2 else get? rest k := by
  rw [get?, List.lookup_cons]
  by_cases same : k = entry.1
  · simp [same]
  · simp [same, get?, beq_eq_false_iff_ne.mpr same]

theorem get?_set :
    (set key value entries).get? k = if k = key then some value else entries.get? k := by
  induction entries with
  | nil => exact get?_cons (key, value) [] k
  | cons entry rest ih =>
      unfold set
      split
      · rename_i same
        subst same
        rw [get?_cons, get?_cons]
        split <;> rfl
      · rename_i other
        rw [get?_cons, get?_cons, ih]
        by_cases here : k = entry.1
        · rw [if_pos here, if_pos here, if_neg (here ▸ other)]
        · rw [if_neg here, if_neg here]

theorem get?_eq_none_iff : entries.get? k = none ↔ k ∉ entries.keys := by
  induction entries with
  | nil => exact iff_of_true rfl List.not_mem_nil
  | cons entry rest ih =>
      rw [get?_cons, keys_cons, List.mem_cons, not_or, ← ih]
      by_cases same : k = entry.1
      · simp [same]
      · simp [same]

theorem get?_of_mem (once : entries.keys.Nodup) {entry : String × Value}
    (member : entry ∈ entries) : entries.get? entry.1 = some entry.2 := by
  induction entries with
  | nil => cases member
  | cons first rest ih =>
      obtain ⟨new, later⟩ := List.nodup_cons.mp once
      rw [get?_cons]
      rcases List.mem_cons.mp member with rfl | among
      · exact if_pos rfl
      · have listed : entry.1 ∈ keys rest := List.mem_map_of_mem among
        rw [if_neg (fun same => new (same.subst listed)), ih later among]

/-- Of what is set last and what was there before, the former counts. -/
theorem get?_setAll (once : updates.keys.Nodup) :
    (setAll entries updates).get? k = (updates.get? k).or (entries.get? k) := by
  induction updates generalizing entries with
  | nil => rfl
  | cons update rest ih =>
      obtain ⟨new, others⟩ := List.nodup_cons.mp once
      rw [setAll_cons, ih others, get?_set, get?_cons]
      split
      · rename_i same
        rw [same, get?_eq_none_iff.mpr new]
        rfl
      · rfl

theorem keys_set : keys (set key value entries) =
    if key ∈ keys entries then keys entries else keys entries ++ [key] := by
  induction entries with
  | nil => rfl
  | cons entry rest ih =>
      unfold set
      split
      · rename_i same
        simp [keys, same]
      · rename_i other
        rw [keys_cons, keys_cons, ih]
        by_cases there : key ∈ keys rest
        · simp [there]
        · simp [there, Ne.symm other]

theorem keys_setAll (once : updates.keys.Nodup) :
    keys (setAll entries updates) =
      keys entries ++ (keys updates).filter (· ∉ keys entries) := by
  induction updates generalizing entries with
  | nil => simp [setAll, keys]
  | cons update rest ih =>
      obtain ⟨new, others⟩ := List.nodup_cons.mp once
      have apart : ∀ other ∈ keys rest, other ≠ update.1 := fun other listed same =>
        new (same.subst listed)
      rw [setAll_cons, ih others, keys_set, keys_cons, List.filter_cons]
      by_cases there : update.1 ∈ keys entries
      · simp [there]
      · have same : (keys rest).filter (· ∉ keys entries ++ [update.1]) =
            (keys rest).filter (· ∉ keys entries) :=
          List.filter_congr (fun other listed => by simp [apart other listed])
        rw [if_neg there, same]
        simp [there]

theorem keys_nulls (names : List String) : keys (names.map (·, .null)) = names := by
  simp [keys, Function.comp_def]

theorem get?_nulls (names : List String) :
    get? (names.map (·, .null)) k = if k ∈ names then some .null else none := by
  induction names with
  | nil => rfl
  | cons name rest ih =>
      rw [List.map_cons, get?_cons, ih]
      by_cases same : k = name <;> simp [same]

end Entries

/-- Entries whose keys are different and whose values all have some property. -/
structure Entries.Each (P : Value → Prop) (entries : Entries) : Prop where
  once : entries.keys.Nodup
  each : ∀ entry ∈ entries, P entry.2

namespace Entries.Each

variable {P : Value → Prop} {entries : Entries}

theorem nil : Entries.Each P [] where
  once := .nil
  each _ member := absurd member List.not_mem_nil

theorem set (all : entries.Each P) {value : Value} (new : P value) (key : String) :
    (Entries.set key value entries).Each P where
  once := Entries.nodup_keys_set all.once
  each entry member := by
    rcases Entries.mem_set member with rfl | earlier
    · exact new
    · exact all.each entry earlier

theorem get? (all : entries.Each P) {key : String} {value : Value}
    (found : entries.get? key = some value) : P value :=
  all.each (key, value) (Entries.mem_of_get? found)

end Entries.Each

/-! ## What is read -/

namespace Reader

/--
A property that values have, where there is room for so many containers within
each other: those have it that are no containers, and containers get it from
what is in them.
-/
structure Hereditary (P : Nat → Value → Prop) : Prop where
  text : ∀ room s, P room (.text s)
  scalar : ∀ {room c value after}, readScalar c = .ok (value, after) → P room value
  list : ∀ {room items}, (∀ item ∈ items, P room item) → P (room + 1) (.list items)
  object : ∀ {room} {entries : Entries}, entries.Each (P room) → P (room + 1) (.object entries)

structure Gives (P : Nat → Value → Prop) (c : Cursor) : Prop where
  value : ∀ {room value after}, readValue room c = .ok (value, after) → P room value
  items : ∀ {room items after}, readItems room c = .ok (items, after) →
    ∀ item ∈ items, P room item
  entries : ∀ {room before entries after}, Entries.Each (P room) before →
    readEntries room before c = .ok (entries, after) → Entries.Each (P room) entries

namespace Hereditary

variable {P : Nat → Value → Prop} {room : Nat} {c : Cursor} (hereditary : Hereditary P)
  (later : ∀ d : Cursor, d.rest.length < c.rest.length → Gives P d)

include hereditary later

/-- The containers of a value are read from a later cursor on. -/
theorem of_readValue {value : Value} {after : Later c}
    (read : readValue room c = .ok (value, after)) : P room value := by
  have inside : ∀ {opening rest}, c.rest = opening :: rest →
      Gives P (Cursor.skipSpace ⟨rest, c.position + 1⟩) := by
    intro opening rest shape
    apply later
    rw [shape]
    exact Nat.lt_succ_of_le (Cursor.skipSpace_le ⟨rest, c.position + 1⟩)
  rw [readValue.eq_def] at read
  split at read
  · split at read
    · cases read
      exact hereditary.text room _
    · cases read
  · rename_i rest shape
    dsimp only at read
    split at read
    · cases read
    · rename_i some
      obtain ⟨inner, rfl⟩ := Nat.exists_eq_succ_of_ne_zero some
      split at read
      · cases read
        exact hereditary.list (by simp)
      · split at read
        · rename_i items last listed
          cases read
          exact hereditary.list ((inside shape).items listed)
        · cases read
  · rename_i rest shape
    dsimp only at read
    split at read
    · cases read
    · rename_i some
      obtain ⟨inner, rfl⟩ := Nat.exists_eq_succ_of_ne_zero some
      split at read
      · cases read
        exact hereditary.object .nil
      · split at read
        · rename_i entries last listed
          cases read
          exact hereditary.object ((inside shape).entries .nil listed)
        · cases read
  · exact hereditary.scalar read

theorem of_readItems {items : List Value} {after : Later c}
    (read : readItems room c = .ok (items, after)) : ∀ item ∈ items, P room item := by
  rw [readItems] at read
  split at read
  · cases read
  · rename_i item next first
    have here := hereditary.of_readValue later first
    dsimp only at read
    split at read
    · cases read
      simpa using here
    · split at read
      · rename_i rest last others
        cases read
        have shorter : (next.1.skipSpace.advance 1).skipSpace.rest.length < c.rest.length :=
          Nat.lt_of_le_of_lt (next.1.skipSpace.advance_skipSpace_le 1)
            (Nat.lt_of_le_of_lt next.1.skipSpace_le next.2)
        exact List.forall_mem_cons.mpr ⟨here, (later _ shorter).items others⟩
      · cases read
    · cases read

omit hereditary in
theorem of_readEntries {before entries : Entries} {after : Later c}
    (all : before.Each (P room)) (read : readEntries room before c = .ok (entries, after)) :
    entries.Each (P room) := by
  rw [readEntries] at read
  split at read
  · cases read
  · rename_i key afterKey _
    dsimp only at read
    split at read
    · have start : (afterKey.1.skipSpace.advance 1).skipSpace.rest.length < c.rest.length :=
        Nat.lt_of_le_of_lt (afterKey.1.skipSpace.advance_skipSpace_le 1)
          (Nat.lt_of_le_of_lt afterKey.1.skipSpace_le afterKey.2)
      split at read
      · cases read
      · rename_i item next first
        have more := all.set ((later _ start).value first) key
        split at read
        · cases read
          exact more
        · split at read
          · rename_i whole last others
            cases read
            have shorter : (next.1.skipSpace.advance 1).skipSpace.rest.length < c.rest.length :=
              Nat.lt_of_le_of_lt (next.1.skipSpace.advance_skipSpace_le 1)
                (Nat.lt_trans (Nat.lt_of_le_of_lt next.1.skipSpace_le next.2) start)
            exact (later _ shorter).entries more others
          · cases read
        · cases read
    · cases read

omit later

theorem gives (c : Cursor) : Gives P c := by
  induction count : c.rest.length using Nat.strongRecOn generalizing c with
  | _ count ih =>
    subst count
    have later : ∀ d : Cursor, d.rest.length < c.rest.length → Gives P d :=
      fun d shorter => ih _ shorter d rfl
    exact ⟨hereditary.of_readValue later, hereditary.of_readItems later, of_readEntries later⟩

/-- Every document that is read has what its parts hand on. -/
theorem of_read {text : List Char} {value : Value} (read : Value.read text = .ok value) :
    P Value.mostNested value := by
  unfold Value.read at read
  split at read
  · cases read
  · split at read
    · cases read
    · rename_i first
      dsimp only at read
      split at read
      · cases read
        exact (hereditary.gives _).value first
      · cases read

end Hereditary

/-- A value that is read neither as a text nor as a container was named, or it is a number. -/
theorem cases_of_readScalar {c : Cursor} {value : Value} {after : Later c}
    (read : readScalar c = .ok (value, after)) :
    (∃ entry ∈ names, entry.2 = value) ∨
      ∃ n length, readNumber? c.rest = some (.ok n, length) ∧ value = .number n := by
  unfold readScalar at read
  extract_lets found at read
  have known : ∀ value length, found = some (.ok value, length) →
      (∃ entry ∈ names, entry.2 = value) ∨
        ∃ n length, readNumber? c.rest = some (.ok n, length) ∧ value = .number n := by
    intro value length known
    unfold found at known
    split at known
    · rename_i named
      obtain ⟨entry, listed, same⟩ := Option.map_eq_some_iff.mp named
      obtain ⟨rfl, rfl⟩ := Prod.mk.inj same
      obtain ⟨same, -⟩ := Prod.mk.inj (Option.some.inj known)
      exact .inl ⟨entry, List.mem_of_find?_eq_some listed, Except.ok.inj same⟩
    · obtain ⟨⟨result, count⟩, counted, same⟩ := Option.map_eq_some_iff.mp known
      obtain ⟨number, -⟩ := Prod.mk.inj same
      cases result with
      | ok n => exact .inr ⟨n, count, counted, (Except.ok.inj number).symm⟩
      | error fault => cases number
  clear_value found
  split at read
  · split at read
    · cases read
      exact known _ _ rfl
    · cases read
  · cases read
  · cases read

end Reader

/-! ## Keys in values -/

/-- A value whose objects, and those within it, have each of their keys once. -/
inductive Value.Keyed : Value → Prop where
  | null : Keyed .null
  | bool (b : Bool) : Keyed (.bool b)
  | number (n : Number) : Keyed (.number n)
  | text (s : String) : Keyed (.text s)
  | list {items : List Value} (each : ∀ item ∈ items, Keyed item) : Keyed (.list items)
  | object {entries : Entries} (once : entries.keys.Nodup)
      (each : ∀ entry ∈ entries, Keyed entry.2) : Keyed (.object entries)

abbrev Entries.Keyed (entries : Entries) : Prop := entries.Each Value.Keyed

theorem Value.Keyed.entries {entries : Entries} (keyed : (Value.object entries).Keyed) :
    entries.Keyed := by
  cases keyed with
  | object once each => exact ⟨once, each⟩

theorem Reader.hereditary_keyed : Hereditary (fun _ => Value.Keyed) where
  text _ := .text
  scalar read := by
    have named : ∀ entry ∈ names, entry.2.Keyed := by
      simp only [names, List.forall_mem_cons]
      exact ⟨.null, .bool _, .bool _, .number _, .number _, .number _, by simp⟩
    rcases cases_of_readScalar read with ⟨entry, listed, rfl⟩ | ⟨n, _, _, rfl⟩
    · exact named entry listed
    · exact .number n
  list := .list
  object all := .object all.once all.each

/-- Every document that is read has each of its keys once. -/
theorem Value.keyed_of_read {text : List Char} {value : Value}
    (read : Value.read text = .ok value) : value.Keyed :=
  Reader.hereditary_keyed.of_read read

end StackingPlanner
