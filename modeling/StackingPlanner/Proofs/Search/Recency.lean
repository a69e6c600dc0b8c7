import Mathlib.Data.List.Pairwise
import StackingPlanner.Proofs.Search.Settings
import StackingPlanner.Proofs.Search.Table

/-!
# What is in a dead-end table

A dead-end table holds the keys that were touched last, as many as it has places
for.  Recording touches its key, a look-up only a key that is there, and when
there is no place for a new key the one that was not touched for the longest
time goes.  Of each key the table holds the greatest number that was recorded
since the key came in.  All of this is a function of the operations that were
made on the table, and the table follows it after any of them.
-/

namespace List

variable {α : Type} [BEq α]

theorem take_erase (count : Nat) (a : α) (l : List α) :
    ((l.take (count + 1)).erase a).take count = (l.erase a).take count := by
  induction l generalizing count with
  | nil => rfl
  | cons first rest ih =>
      rw [take_succ_cons, erase_cons, erase_cons]
      split
      · rw [take_take, Nat.min_self]
      · cases count with
        | zero => rfl
        | succ count => rw [take_succ_cons, take_succ_cons, ih]

variable [LawfulBEq α]

-- The rest of the list loses the first element before its own duplicates are erased,
-- so both inductions are on the length.
theorem nodup_eraseDups (l : List α) : l.eraseDups.Nodup := by
  induction length : l.length using Nat.strongRecOn generalizing l with
  | _ n ih =>
      cases l with
      | nil => exact nodup_nil
      | cons first rest =>
          have fewer := length_filter_le (fun a => !a == first) rest
          rw [length_cons] at length
          rw [eraseDups_cons, nodup_cons, mem_eraseDups, mem_filter]
          exact ⟨by simp, ih _ (by omega) _ rfl⟩

theorem eraseDups_filter (p : α → Bool) (l : List α) :
    (l.filter p).eraseDups = l.eraseDups.filter p := by
  induction length : l.length using Nat.strongRecOn generalizing l with
  | _ n ih =>
      cases l with
      | nil => rfl
      | cons first rest =>
          have fewer := length_filter_le (fun a => !a == first) rest
          rw [length_cons] at length
          have onward := ih _ (by omega) (rest.filter (fun a => !a == first)) rfl
          rw [eraseDups_cons]
          by_cases kept : p first = true
          · rw [filter_cons_of_pos kept, filter_cons_of_pos kept, eraseDups_cons, ← onward,
              filter_filter, filter_filter]
            simp only [Bool.and_comm]
          · rw [filter_cons_of_neg kept, filter_cons_of_neg kept, ← onward, filter_filter]
            refine congrArg eraseDups (filter_congr (fun a _ => ?_))
            by_cases same : a = first
            · simp [same, kept]
            · simp [same]

end List

namespace StackingPlanner

namespace DeadEndTable

/-! ## The keys that were touched last -/

section Latest

variable {κ : Type} [BEq κ]

/-- The keys of a list of touches without repetition, at most so many; the last touch is first. -/
def latest (places : Nat) (touches : List κ) : List κ := touches.eraseDups.take places

theorem length_latest_le (places : Nat) (touches : List κ) :
    (latest places touches).length ≤ places := List.length_take_le _ _

theorem latest_nil (places : Nat) : latest places ([] : List κ) = [] := List.take_nil

variable [LawfulBEq κ] {places : Nat} {key : κ} {touches : List κ}

/-- A touched key comes first and the others move up, and out if there is no place for them. -/
theorem latest_cons (places : Nat) (key : κ) (touches : List κ) :
    latest (places + 1) (key :: touches) =
      key :: ((latest (places + 1) touches).erase key).take places := by
  have earlier : (touches.filter (fun other => !other == key)).eraseDups =
      touches.eraseDups.erase key := by
    rw [List.eraseDups_filter, (List.nodup_eraseDups touches).erase_eq_filter]
    rfl
  unfold latest
  rw [List.eraseDups_cons, List.take_succ_cons, earlier, List.take_erase]

theorem latest_cons_of_mem (member : key ∈ latest places touches) :
    latest places (key :: touches) = key :: (latest places touches).erase key := by
  cases places with
  | zero => cases member
  | succ places =>
      have fewer := List.length_erase_of_mem member
      have most := length_latest_le (places + 1) touches
      rw [latest_cons, List.take_of_length_le (by omega)]

theorem latest_cons_of_not_mem (positive : 1 ≤ places) (absent : key ∉ latest places touches) :
    latest places (key :: touches) = key :: (latest places touches).take (places - 1) := by
  obtain ⟨fewer, rfl⟩ := Nat.exists_eq_add_of_le' positive
  rw [latest_cons, List.erase_of_not_mem absent, Nat.add_sub_cancel]

end Latest

/-! ## The keys of a table in order -/

section Order

variable {κ ρ : Type} [BEq κ] [Hashable κ]

/-- A list is the keys of a table, the one that was touched last first. -/
structure Lists (t : DeadEndTable κ ρ) (keys : List κ) : Prop where
  mem_iff : ∀ key, key ∈ keys ↔ ∃ entry, t.entries[key]? = some entry
  nodup : keys.Nodup
  order : keys.Pairwise (fun later earlier => ∀ entry older : DeadEnd ρ,
    t.entries[later]? = some entry → t.entries[earlier]? = some older →
    older.touched < entry.touched)
  past : ∀ (key : κ) (entry : DeadEnd ρ), t.entries[key]? = some entry → entry.touched < t.time

variable {t u : DeadEndTable κ ρ} {keys : List κ} {key : κ} {remaining : ρ}

theorem hits_forgetOldest (t : DeadEndTable κ ρ) : t.forgetOldest.hits = t.hits := by
  unfold forgetOldest
  split <;> rfl

theorem misses_forgetOldest (t : DeadEndTable κ ρ) : t.forgetOldest.misses = t.misses := by
  unfold forgetOldest
  split <;> rfl

theorem Lists.congr (lists : t.Lists keys) (entries : u.entries = t.entries)
    (time : u.time = t.time) : u.Lists keys := by
  obtain ⟨memIff, nodup, order, past⟩ := lists
  rw [← entries] at memIff order past
  rw [← time] at past
  exact ⟨memIff, nodup, order, past⟩

theorem lists_of_empty (empty : t.entries = ∅) : t.Lists [] where
  mem_iff key := by simp [empty]
  nodup := List.nodup_nil
  order := List.Pairwise.nil
  past key entry found := by simp [empty] at found

variable [LawfulBEq κ]

theorem getElem?_store (t : DeadEndTable κ ρ) (key other : κ) (remaining : ρ) :
    (t.store key remaining).entries[other]? =
      if key == other then some ⟨remaining, t.time⟩ else t.entries[other]? :=
  Std.HashMap.getElem?_insert

theorem Lists.size_eq (lists : t.Lists keys) : t.size = keys.length := by
  rw [size, ← Std.HashMap.length_keys]
  refine ((List.perm_ext_iff_of_nodup Std.HashMap.nodup_keys lists.nodup).mpr
    (fun key => ?_)).length_eq
  rw [Std.HashMap.mem_keys, lists.mem_iff, Std.HashMap.mem_iff_isSome_getElem?,
    Option.isSome_iff_exists]

theorem Lists.store (lists : t.Lists keys) (key : κ) (remaining : ρ) :
    (t.store key remaining).Lists (key :: keys.erase key) where
  mem_iff other := by
    rw [getElem?_store, List.mem_cons]
    by_cases same : key = other
    · simp [same]
    · rw [if_neg (by simpa using same), ← lists.mem_iff, List.mem_erase_of_ne (Ne.symm same)]
      simp [Ne.symm same]
  nodup := List.nodup_cons.mpr ⟨lists.nodup.not_mem_erase, lists.nodup.erase key⟩
  order := by
    have others : ∀ other ∈ keys.erase key,
        (t.store key remaining).entries[other]? = t.entries[other]? := by
      intro other member
      have differs := (lists.nodup.mem_erase_iff.mp member).1
      rw [getElem?_store, if_neg (by simpa using Ne.symm differs)]
    refine List.pairwise_cons.mpr ⟨fun other member entry older found old => ?_, ?_⟩
    · rw [getElem?_store, if_pos (beq_self_eq_true key)] at found
      cases found
      exact lists.past other older ((others other member).symm.trans old)
    · refine (lists.order.erase key).imp_of_mem (fun {later earlier} there here before => ?_)
      rw [others later there, others earlier here]
      exact before
  past other entry found := by
    rw [getElem?_store] at found
    change entry.touched < t.time + 1
    split at found
    · cases found
      exact Nat.lt_succ_self _
    · exact Nat.lt_succ_of_lt (lists.past other entry found)

def older? (oldest : Option (κ × Nat)) (entry : κ × DeadEnd ρ) : Option (κ × Nat) :=
  match oldest with
  | some (key, touched) =>
      if entry.2.touched < touched then some (entry.1, entry.2.touched) else some (key, touched)
  | none => some (entry.1, entry.2.touched)

omit [BEq κ] [Hashable κ] [LawfulBEq κ] in
theorem foldl_older?_of_le {oldest : κ × Nat} (entries : List (κ × DeadEnd ρ))
    (least : ∀ entry ∈ entries, oldest.2 ≤ entry.2.touched) :
    entries.foldl older? (some oldest) = some oldest := by
  induction entries with
  | nil => rfl
  | cons first rest ih =>
      have kept : older? (some oldest) first = some oldest :=
        if_neg (Nat.not_lt.mpr (least first List.mem_cons_self))
      rw [List.foldl_cons, kept]
      exact ih (fun entry among => least entry (List.mem_cons_of_mem _ among))

omit [BEq κ] [Hashable κ] [LawfulBEq κ] in
theorem foldl_older?_eq {oldest : κ × DeadEnd ρ} {entries : List (κ × DeadEnd ρ)}
    (member : oldest ∈ entries)
    (least : ∀ entry ∈ entries, entry = oldest ∨ oldest.2.touched < entry.2.touched)
    (before : Option (κ × Nat)) (later : ∀ entry ∈ before, oldest.2.touched < entry.2) :
    entries.foldl older? before = some (oldest.1, oldest.2.touched) := by
  induction entries generalizing before with
  | nil => cases member
  | cons first rest ih =>
      rw [List.foldl_cons]
      rcases least first List.mem_cons_self with rfl | less
      · have taken : older? before first = some (first.1, first.2.touched) := by
          cases before with
          | none => rfl
          | some entry => exact if_pos (later entry rfl)
        rw [taken]
        refine foldl_older?_of_le rest (fun entry among => ?_)
        rcases least entry (List.mem_cons_of_mem _ among) with rfl | less
        · exact Nat.le_refl _
        · exact Nat.le_of_lt less
      · have rest' : oldest ∈ rest := by
          rcases List.mem_cons.mp member with rfl | among
          · exact absurd less (Nat.lt_irrefl _)
          · exact among
        refine ih rest' (fun entry among => least entry (List.mem_cons_of_mem _ among)) _ ?_
        rintro entry found
        cases before with
        | none =>
            cases found
            exact less
        | some other =>
            have either : older? (some other) first = some (first.1, first.2.touched) ∨
                older? (some other) first = some other := ite_eq_or_eq _ _ _
            rcases either with is | is
            · cases is.symm.trans found
              exact less
            · cases is.symm.trans found
              exact later _ rfl

theorem oldest?_eq {entry : DeadEnd ρ} (found : t.entries[key]? = some entry)
    (least : ∀ other older, t.entries[other]? = some older → other ≠ key →
      entry.touched < older.touched) : t.oldest? = some (key, entry.touched) := by
  have folded : t.oldest? = t.entries.toList.foldl older? none :=
    Std.HashMap.fold_eq_foldl_toList
  have member : (key, entry) ∈ t.entries.toList :=
    Std.HashMap.mem_toList_iff_getElem?_eq_some.mpr found
  rw [folded]
  refine foldl_older?_eq member ?_ none (by simp)
  rintro ⟨other, older⟩ member
  have stored := Std.HashMap.mem_toList_iff_getElem?_eq_some.mp member
  by_cases same : other = key
  · subst same
    cases found.symm.trans stored
    exact .inl rfl
  · exact .inr (least other older stored same)

theorem Lists.oldest? (lists : t.Lists (keys ++ [key])) :
    ∃ touched, t.oldest? = some (key, touched) := by
  obtain ⟨entry, found⟩ := (lists.mem_iff key).mp (by simp)
  refine ⟨entry.touched, oldest?_eq found (fun other older stored differs => ?_)⟩
  have front : other ∈ keys := by
    have member := (lists.mem_iff other).mpr ⟨older, stored⟩
    simpa [differs] using member
  exact (List.pairwise_append.mp lists.order).2.2 other front key (by simp) older entry stored found

theorem Lists.forgetOldest (lists : t.Lists (keys ++ [key])) : t.forgetOldest.Lists keys := by
  obtain ⟨touched, oldest⟩ := lists.oldest?
  have forgotten : t.forgetOldest = { t with entries := t.entries.erase key } := by
    rw [DeadEndTable.forgetOldest, oldest]
  obtain ⟨distinct, -, apart⟩ := List.nodup_append.mp lists.nodup
  have absent : key ∉ keys := fun member => apart key member key (by simp) rfl
  have kept : ∀ (other : κ) (entry : DeadEnd ρ), t.forgetOldest.entries[other]? = some entry ↔
      other ≠ key ∧ t.entries[other]? = some entry := by
    intro other entry
    rw [forgotten, Std.HashMap.getElem?_erase]
    by_cases same : key = other
    · simp [same]
    · simp [same, Ne.symm same]
  refine ⟨fun other => ?_, distinct, ?_, fun other entry found => ?_⟩
  · simp only [kept, exists_and_left, ← lists.mem_iff, List.mem_append, List.mem_singleton]
    constructor
    · intro member
      exact ⟨fun same => absent (same ▸ member), .inl member⟩
    · rintro ⟨differs, member | same⟩
      · exact member
      · exact absurd same differs
  · refine (List.pairwise_append.mp lists.order).1.imp (fun before entry older there here => ?_)
    exact before entry older ((kept _ _).mp there).2 ((kept _ _).mp here).2
  · rw [forgotten]
    exact lists.past other entry ((kept other entry).mp found).2

end Order

/-! ## What was done to a table -/

inductive Operation (κ : Type) where
  | record (key : κ) (remaining : Int)
  | lookUp (key : κ) (remaining : Int)
  | clear

namespace Operation

variable {κ : Type}

def isLookUp : Operation κ → Bool
  | lookUp _ _ => true
  | _ => false

def isClear : Operation κ → Bool
  | clear => true
  | _ => false

def perform? [BEq κ] [Hashable κ] (t : DeadEndTable κ Int) :
    Operation κ → Option (DeadEndTable κ Int)
  | record key remaining => t.record? key remaining
  | lookUp key remaining => some (t.isDeadEnd key remaining).2
  | clear => some t.clear

end Operation

section History

variable {κ : Type} [BEq κ]

/-- A new table after operations, of which the last one is listed first. -/
def after? [Hashable κ] (places : Nat) : List (Operation κ) → Option (DeadEndTable κ Int)
  | [] => (make (.whole places)).toOption
  | operation :: earlier => (after? places earlier).bind operation.perform?

/--
The keys that operations touch, until the table is cleared; a look-up touches
its key if that is among the last ones.
-/
def touched (places : Nat) : List (Operation κ) → List κ
  | [] => []
  | .record key _ :: earlier => key :: touched places earlier
  | .lookUp key _ :: earlier =>
      if (latest places (touched places earlier)).contains key then key :: touched places earlier
      else touched places earlier
  | .clear :: _ => []

/-- The numbers that were recorded for a key since it came in. -/
def recorded (places : Nat) (key : κ) : List (Operation κ) → List Int
  | [] => []
  | .record other remaining :: earlier =>
      if other == key then
        if (latest places (touched places earlier)).contains key then
          remaining :: recorded places key earlier
        else [remaining]
      else recorded places key earlier
  | .lookUp _ _ :: earlier => recorded places key earlier
  | .clear :: _ => []

def sinceClear (history : List (Operation κ)) : List (Operation κ) :=
  history.takeWhile (!·.isClear)

variable [LawfulBEq κ] {places : Nat} {key : κ} {history : List (Operation κ)}

theorem record_of_recorded {remaining : Int} (member : remaining ∈ recorded places key history) :
    .record key remaining ∈ sinceClear history := by
  induction history with
  | nil => cases member
  | cons operation earlier ih =>
      cases operation with
      | record other n =>
          change _ ∈ .record other n :: sinceClear earlier
          rw [recorded] at member
          split at member
          · rename_i same
            cases eq_of_beq same
            split at member
            · rcases List.mem_cons.mp member with rfl | member
              · exact List.mem_cons_self
              · exact List.mem_cons_of_mem _ (ih member)
            · rw [List.mem_singleton.mp member]
              exact List.mem_cons_self
          · exact List.mem_cons_of_mem _ (ih member)
      | lookUp other n => exact List.mem_cons_of_mem _ (ih member)
      | clear => cases member

variable [Hashable κ] {t : DeadEndTable κ Int} {remaining : Int}

/-- A table is what its history makes of it. -/
structure Follows (places : Nat) (history : List (Operation κ)) (t : DeadEndTable κ Int) :
    Prop where
  capacity : t.capacity = .whole places
  lists : t.Lists (latest places (touched places history))
  greatest : t.Vouches (fun key n => (recorded places key history).max? = some n)
  counted : t.hits + t.misses = history.countP Operation.isLookUp

theorem Follows.contains_of_found (follows : Follows places history t) {entry : DeadEnd Int}
    (found : t.entries[key]? = some entry) :
    (latest places (touched places history)).contains key = true :=
  List.contains_iff_mem.mpr ((follows.lists.mem_iff key).mpr ⟨entry, found⟩)

omit [LawfulBEq κ] in
theorem Follows.not_mem_of_new (follows : Follows places history t)
    (new : t.entries[key]? = none) : key ∉ latest places (touched places history) := by
  rw [follows.lists.mem_iff]
  rintro ⟨entry, found⟩
  cases new.symm.trans found

theorem Follows.contains_of_new (follows : Follows places history t)
    (new : t.entries[key]? = none) :
    (latest places (touched places history)).contains key = false := by
  rw [← Bool.not_eq_true, List.contains_iff_mem]
  exact follows.not_mem_of_new new

omit [LawfulBEq κ] in
theorem Follows.isNarrow_eq (follows : Follows places history t) (positive : 1 ≤ places) :
    t.isNarrow = false := by
  rw [isNarrow, follows.capacity, Number.isBelow_whole]
  exact decide_eq_false (by omega)

theorem Follows.isFull_iff (follows : Follows places history t) :
    t.isFull = true ↔ places ≤ (latest places (touched places history)).length := by
  rw [isFull, follows.capacity, Number.isBelow_whole, follows.lists.size_eq, decide_eq_true_iff]
  omega

omit [LawfulBEq κ] in
theorem follows_nil (positive : 1 ≤ places) :
    ∃ t : DeadEndTable κ Int, after? places [] = some t ∧ Follows places [] t := by
  have above : (Number.whole places).isAtMost (.whole 0) = false := by
    rw [← Bool.not_eq_true]
    intro low
    have := (Number.whole_le_whole _ _).mp low
    omega
  have lists : (⟨.whole places, ∅, 0, 0, 0⟩ : DeadEndTable κ Int).Lists
      (latest places (touched places [])) := by
    rw [touched, latest_nil]
    exact lists_of_empty rfl
  have made : (make (.whole places) : Except Misuse (DeadEndTable κ Int)) =
      .ok ⟨.whole places, ∅, 0, 0, 0⟩ := by
    have given : (Value.whole places).number? = some (.whole places) := rfl
    rw [make, given]
    exact if_neg (Bool.not_eq_true _ ▸ above)
  refine ⟨⟨.whole places, ∅, 0, 0, 0⟩, ?_, rfl, lists, vouches_of_empty rfl, rfl⟩
  rw [after?, made, Except.toOption]

/-- The numbers of the other keys stay what they were. -/
theorem Vouches.store_record
    (vouches : t.Vouches (fun other n => (recorded places other history).max? = some n))
    {n m : Int} (most : (recorded places key (.record key n :: history)).max? = some m) :
    (t.store key m).Vouches
      (fun other k => (recorded places other (.record key n :: history)).max? = some k) := by
  intro other entry found
  rw [getElem?_store] at found
  split at found
  · rename_i same
    cases eq_of_beq same
    cases found
    exact most
  · rename_i differs
    rw [recorded, if_neg differs]
    exact vouches other entry found

theorem Follows.record_found (follows : Follows places history t) {entry : DeadEnd Int}
    (found : t.entries[key]? = some entry) :
    Follows places (.record key remaining :: history)
      (t.store key (if entry.remaining < remaining then remaining else entry.remaining)) where
  capacity := follows.capacity
  lists := by
    rw [touched, latest_cons_of_mem (List.contains_iff_mem.mp (follows.contains_of_found found))]
    exact follows.lists.store key _
  greatest := by
    refine follows.greatest.store_record ?_
    have before := follows.greatest key entry found
    rw [recorded, if_pos (beq_self_eq_true key), if_pos (follows.contains_of_found found),
      List.max?_cons, before, Option.elim_some, Option.some.injEq]
    split <;> omega
  counted := follows.counted

/-- If every place is taken, the last key goes, so that there is one for a new key. -/
theorem Follows.lists_room (follows : Follows places history t) (positive : 1 ≤ places) :
    (if t.isFull then t.forgetOldest else t).Lists
      ((latest places (touched places history)).take (places - 1)) := by
  have lists := follows.lists
  have most := length_latest_le places (touched places history)
  split
  · rename_i full
    have length := Nat.le_antisymm most (follows.isFull_iff.mp full)
    rcases List.eq_nil_or_concat (latest places (touched places history)) with
      none | ⟨front, last, is⟩
    · rw [none, List.length_nil] at length
      omega
    · rw [List.concat_eq_append] at is
      rw [is] at lists length ⊢
      rw [List.length_append, List.length_singleton] at length
      rw [List.take_left' (by omega)]
      exact lists.forgetOldest
  · rename_i free
    rw [follows.isFull_iff] at free
    rw [List.take_of_length_le (by omega)]
    exact lists

/-- A new key gets the number, once there is a place for it. -/
theorem Follows.record_new (follows : Follows places history t) (positive : 1 ≤ places)
    (new : t.entries[key]? = none) :
    Follows places (.record key remaining :: history)
      ((if t.isFull then t.forgetOldest else t).store key remaining) := by
  have absent := follows.not_mem_of_new new
  have lists := follows.lists_room positive
  have either : (if t.isFull then t.forgetOldest else t) = t.forgetOldest ∨
      (if t.isFull then t.forgetOldest else t) = t := ite_eq_or_eq _ _ _
  generalize (if t.isFull then t.forgetOldest else t) = room at lists either ⊢
  have kept : room.capacity = t.capacity ∧ room.hits = t.hits ∧ room.misses = t.misses := by
    rcases either with rfl | rfl
    · exact ⟨capacity_forgetOldest t, hits_forgetOldest t, misses_forgetOldest t⟩
    · exact ⟨rfl, rfl, rfl⟩
  have greatest : room.Vouches
      (fun other n => (recorded places other history).max? = some n) := by
    rcases either with rfl | rfl
    · exact follows.greatest.forgetOldest
    · exact follows.greatest
  refine ⟨kept.1.trans follows.capacity, ?_, greatest.store_record ?_, ?_⟩
  · have gone : key ∉ (latest places (touched places history)).take (places - 1) :=
      fun member => absent (List.mem_of_mem_take member)
    have stored := lists.store key remaining
    rw [List.erase_of_not_mem gone] at stored
    rw [touched, latest_cons_of_not_mem positive absent]
    exact stored
  · rw [recorded, if_pos (beq_self_eq_true key), follows.contains_of_new new]
    rfl
  · change room.hits + room.misses = _
    rw [kept.2.1, kept.2.2]
    exact follows.counted

theorem Follows.record (follows : Follows places history t) (positive : 1 ≤ places) (key : κ)
    (remaining : Int) :
    ∃ u, t.record? key remaining = some u ∧
      Follows places (.record key remaining :: history) u := by
  unfold DeadEndTable.record?
  cases found : t.entries[key]? with
  | some entry => exact ⟨_, rfl, follows.record_found found⟩
  | none =>
      rw [follows.isNarrow_eq positive]
      exact ⟨_, rfl, follows.record_new positive found⟩

theorem Follows.lookUp (follows : Follows places history t) (key : κ) (remaining : Int) :
    Follows places (.lookUp key remaining :: history) (t.isDeadEnd key remaining).2 where
  capacity := (capacity_isDeadEnd t key remaining).trans follows.capacity
  lists := by
    unfold DeadEndTable.isDeadEnd
    split
    · rename_i entry found
      have there := follows.contains_of_found found
      rw [touched, if_pos there, latest_cons_of_mem (List.contains_iff_mem.mp there)]
      have stored := follows.lists.store key entry.remaining
      dsimp only
      split
      · exact stored.congr rfl rfl
      · exact stored.congr rfl rfl
    · rename_i new
      rw [touched, follows.contains_of_new new]
      exact follows.lists.congr rfl rfl
  greatest := follows.greatest.isDeadEnd key remaining
  counted := by
    have counted := follows.counted
    rw [List.countP_cons_of_pos rfl]
    unfold DeadEndTable.isDeadEnd
    split
    · dsimp only
      split
      · change t.hits + 1 + t.misses = _
        omega
      · change t.hits + (t.misses + 1) = _
        omega
    · change t.hits + (t.misses + 1) = _
      omega

omit [LawfulBEq κ] in
theorem Follows.clear (follows : Follows places history t) :
    Follows places (.clear :: history) t.clear where
  capacity := follows.capacity
  lists := by
    rw [touched, latest_nil]
    exact lists_of_empty rfl
  greatest := vouches_of_empty rfl
  counted := follows.counted

/-- A table follows its history, whatever is done to it. -/
theorem follows_history (positive : 1 ≤ places) (history : List (Operation κ)) :
    ∃ t, after? places history = some t ∧ Follows places history t := by
  induction history with
  | nil => exact follows_nil positive
  | cons operation earlier ih =>
      obtain ⟨t, made, follows⟩ := ih
      rw [after?, made, Option.bind_some]
      cases operation with
      | record key remaining => exact follows.record positive key remaining
      | lookUp key remaining => exact ⟨_, rfl, follows.lookUp key remaining⟩
      | clear => exact ⟨_, rfl, follows.clear⟩

/-- What a table with so many places remembers of the operations that were made on it. -/
structure Remembers (places : Nat) (history : List (Operation κ)) (t : DeadEndTable κ Int) :
    Prop where
  stored_iff : ∀ key, key ∈ t.entries ↔ key ∈ latest places (touched places history)
  greatest : ∀ (key : κ) (entry : DeadEnd Int), t.entries[key]? = some entry →
    (recorded places key history).max? = some entry.remaining
  confirms_iff : ∀ (key : κ) (steps : Int), (t.isDeadEnd key steps).1 = true ↔
    ∃ entry, t.entries[key]? = some entry ∧ steps ≤ entry.remaining
  rests : ∀ (key : κ) (steps : Int), (t.isDeadEnd key steps).1 = true →
    ∃ n, .record key n ∈ sinceClear history ∧ steps ≤ n
  size_le : t.size ≤ places
  counted : t.hits + t.misses = history.countP Operation.isLookUp

/--
Whatever is done to a table with at least one place, it holds the keys that were
touched last and of each the greatest number since it came in.
-/
theorem remembers_history (positive : 1 ≤ places) (history : List (Operation κ)) :
    ∃ t, after? places history = some t ∧ Remembers places history t := by
  obtain ⟨t, made, follows⟩ := follows_history positive history
  refine ⟨t, made, fun key => ?_, follows.greatest, fun key steps => isDeadEnd_iff,
    fun key steps known => ?_, ?_, follows.counted⟩
  · rw [follows.lists.mem_iff, Std.HashMap.mem_iff_isSome_getElem?, Option.isSome_iff_exists]
  · obtain ⟨n, most, covers⟩ := follows.greatest.of_isDeadEnd known
    exact ⟨n, record_of_recorded (List.max?_mem most), covers⟩
  · rw [follows.lists.size_eq]
    exact length_latest_le _ _

/-- A key that had to go comes back with a smaller number. -/
theorem remembers_history_returning :
    let history : List (Operation String) :=
      [.record "b" 0, .record "c" 2, .lookUp "a" 3, .record "b" 4, .record "a" 5]
    (latest 2 (touched 2 history) = ["b", "c"] ∧ recorded 2 "b" history = [0]) ∧
      ∃ t, after? 2 history = some t ∧ Remembers 2 history t :=
  ⟨by decide, remembers_history (by decide) _⟩

end History

end DeadEndTable

end StackingPlanner
