import StackingPlanner.Document.Reader

/-!
# Only long documents go beyond a limit

Each container within another takes a character to open, and a number with too
many digits takes these digits.  So a text that is no longer than the containers
that may be nested, or shorter than a number may be, is read or is no document.
-/

namespace StackingPlanner

/--
A fault that so many characters can lead to, with room for so many containers:
any number of them may be no document, but a limit takes some to be exceeded.
-/
def ReadFault.Within (room length : Nat) : ReadFault → Prop
  | .malformed _ => True
  | .longNumber digits => Number.mostDigits < digits ∧ digits ≤ length
  | .tooDeep => room < length

namespace Reader

variable {α : Type} {room length : Nat} {c : Cursor} {fault : ReadFault}

def Bounded (room length : Nat) (result : Result α) : Prop :=
  ∀ fault, result = .error fault → fault.Within room length

theorem within_malformed (malformed : ∃ e, fault = .malformed e) : fault.Within room length := by
  obtain ⟨e, rfl⟩ := malformed
  trivial

/-- What fewer characters lead to, more of them lead to with no more room to spare. -/
theorem within_mono {inner shorter : Nat} (within : fault.Within inner shorter)
    (le : shorter ≤ length) (spare : room + shorter ≤ inner + length) :
    fault.Within room length := by
  cases fault with
  | malformed e => trivial
  | longNumber digits => exact ⟨within.1, Nat.le_trans within.2 le⟩
  | tooDeep =>
      have nested : inner < shorter := within
      change room < length
      omega

/-- A later part of the text, with at most one container more around it, leads to no more. -/
theorem within_later {inner shorter : Nat} (within : fault.Within inner shorter)
    (later : shorter < length) (deeper : room ≤ inner + 1) : fault.Within room length :=
  within_mono within (Nat.le_of_lt later) (by omega)

/-! ## Texts, numbers and names -/

theorem readUnits_malformed {start : Nat} {cs : List Char} {position : Nat}
    (fails : readUnits start cs position = .error fault) : ∃ e, fault = .malformed e := by
  fun_induction readUnits start cs position with
  | case2 | case5 | case9 | case12 => cases fails
  | case6 _ _ _ _ _ _ _ _ _ failure inner ih
  | case10 _ _ _ _ _ _ _ failure inner ih
  | case13 _ _ _ _ _ _ _ _ failure inner ih =>
      cases fails
      exact ih inner
  | _ =>
      cases fails
      exact ⟨_, rfl⟩

theorem readText_malformed (fails : readText c = .error fault) : ∃ e, fault = .malformed e := by
  unfold readText at fails
  split at fails
  · split at fails
    · cases fails
    · rename_i failure units
      cases fails
      exact readUnits_malformed units
  · cases fails
    exact ⟨_, rfl⟩

/-- A number is not read only if it has too many digits, all of which are there. -/
theorem readNumber?_long {cs : List Char} {count : Nat}
    (fails : readNumber? cs = some (.error fault, count)) :
    ∃ digits, fault = .longNumber digits ∧ Number.mostDigits < digits ∧ digits ≤ cs.length := by
  unfold readNumber? at fails
  extract_lets negative body whole afterWhole fraction fractionLength power powerLength length
    exponent at fails
  have shorter : body.length ≤ cs.length := by
    unfold body
    split
    · exact (List.drop_suffix 1 cs).length_le
    · exact Nat.le_refl _
  have short : whole.length ≤ body.length := by
    unfold whole
    split
    · rename_i zero
      exact List.length_pos_of_mem (List.mem_of_mem_head? zero)
    · exact (List.takeWhile_prefix Char.isDigit).length_le
  split at fails
  · cases fails
  · split at fails
    · obtain ⟨long, -⟩ := Prod.mk.inj (Option.some.inj fails)
      unfold wholeOf at long
      split at long
      · rename_i many
        cases long
        exact ⟨_, rfl, many, Nat.le_trans short shorter⟩
      · cases long
    · cases fails

theorem readScalar_bounded (room : Nat) (c : Cursor) :
    Bounded room c.rest.length (readScalar c) := by
  intro fault fails
  unfold readScalar at fails
  extract_lets found at fails
  have long : ∀ fault count, found = some (.error fault, count) →
      fault.Within room c.rest.length := by
    intro fault count known
    unfold found at known
    split at known
    · cases known
    · obtain ⟨⟨result, length⟩, read, same⟩ := Option.map_eq_some_iff.mp known
      obtain ⟨long, -⟩ := Prod.mk.inj same
      cases result with
      | ok n => cases long
      | error other =>
          cases long
          obtain ⟨digits, rfl, within⟩ := readNumber?_long read
          exact within
  clear_value found
  split at fails
  · split at fails
    · cases fails
    · cases fails
      trivial
  · cases fails
    exact long _ _ rfl
  · cases fails
    trivial

/-! ## Values -/

/-- What can go wrong with the items of a list goes wrong with one of them. -/
theorem readItems_bounded_of (here : Bounded room c.rest.length (readValue room c))
    (later : ∀ d : Cursor, d.rest.length < c.rest.length →
      Bounded room d.rest.length (readItems room d)) :
    Bounded room c.rest.length (readItems room c) := by
  intro fault fails
  rw [readItems] at fails
  split at fails
  · rename_i failure read
    cases fails
    exact here fault read
  · rename_i item after read
    dsimp only at fails
    split at fails
    · cases fails
    · split at fails
      · cases fails
      · rename_i failure read
        cases fails
        have shorter : (after.1.skipSpace.advance 1).skipSpace.rest.length < c.rest.length :=
          Nat.lt_of_le_of_lt (after.1.skipSpace.advance_skipSpace_le 1)
            (Nat.lt_of_le_of_lt after.1.skipSpace_le after.2)
        exact within_later (later _ shorter fault read) shorter (Nat.le_succ room)
    · cases fails
      trivial

theorem readEntries_bounded_of (before : Entries)
    (value : ∀ d : Cursor, d.rest.length < c.rest.length →
      Bounded room d.rest.length (readValue room d))
    (later : ∀ (before : Entries) (d : Cursor), d.rest.length < c.rest.length →
      Bounded room d.rest.length (readEntries room before d)) :
    Bounded room c.rest.length (readEntries room before c) := by
  intro fault fails
  rw [readEntries] at fails
  split at fails
  · rename_i failure read
    cases fails
    exact within_malformed (readText_malformed read)
  · rename_i key afterKey _
    dsimp only at fails
    split at fails
    · have start : (afterKey.1.skipSpace.advance 1).skipSpace.rest.length < c.rest.length :=
        Nat.lt_of_le_of_lt (afterKey.1.skipSpace.advance_skipSpace_le 1)
          (Nat.lt_of_le_of_lt afterKey.1.skipSpace_le afterKey.2)
      split at fails
      · rename_i failure read
        cases fails
        exact within_later (value _ start fault read) start (Nat.le_succ room)
      · rename_i item after read
        split at fails
        · cases fails
        · split at fails
          · cases fails
          · rename_i failure read
            cases fails
            have shorter : (after.1.skipSpace.advance 1).skipSpace.rest.length < c.rest.length :=
              Nat.lt_of_le_of_lt (after.1.skipSpace.advance_skipSpace_le 1)
                (Nat.lt_trans (Nat.lt_of_le_of_lt after.1.skipSpace_le after.2) start)
            exact within_later (later _ _ shorter fault read) shorter (Nat.le_succ room)
        · cases fails
          trivial
    · cases fails
      trivial

/-- What can go wrong with a value goes wrong with it or within a container. -/
theorem readValue_bounded_of
    (items : ∀ (inner : Nat) (d : Cursor), d.rest.length < c.rest.length →
      Bounded inner d.rest.length (readItems inner d))
    (entries : ∀ (inner : Nat) (d : Cursor), d.rest.length < c.rest.length →
      Bounded inner d.rest.length (readEntries inner [] d)) :
    Bounded room c.rest.length (readValue room c) := by
  intro fault fails
  have shorter : ∀ {opening rest}, c.rest = opening :: rest →
      (Cursor.skipSpace ⟨rest, c.position + 1⟩).rest.length < c.rest.length := by
    intro opening rest shape
    rw [shape]
    exact Nat.lt_succ_of_le (Cursor.skipSpace_le ⟨rest, c.position + 1⟩)
  have deeper : room ≤ room - 1 + 1 := by omega
  rw [readValue.eq_def] at fails
  split at fails
  · split at fails
    · cases fails
    · rename_i failure read
      cases fails
      exact within_malformed (readText_malformed read)
  · rename_i rest shape
    have inside := shorter shape
    dsimp only at fails
    split at fails
    · rename_i none
      cases fails
      exact none ▸ Nat.zero_lt_of_lt inside
    · split at fails
      · cases fails
      · split at fails
        · cases fails
        · rename_i failure read
          cases fails
          exact within_later (items _ _ inside fault read) inside deeper
  · rename_i rest shape
    have inside := shorter shape
    dsimp only at fails
    split at fails
    · rename_i none
      cases fails
      exact none ▸ Nat.zero_lt_of_lt inside
    · split at fails
      · cases fails
      · split at fails
        · cases fails
        · rename_i failure read
          cases fails
          exact within_later (entries _ _ inside fault read) inside deeper
  · exact readScalar_bounded room c fault fails

/-- Whatever goes wrong with a value, its items or its entries, their characters can lead to it. -/
theorem bounded (c : Cursor) :
    (∀ room, Bounded room c.rest.length (readValue room c)) ∧
      (∀ room, Bounded room c.rest.length (readItems room c)) ∧
        ∀ room before, Bounded room c.rest.length (readEntries room before c) := by
  induction count : c.rest.length using Nat.strongRecOn generalizing c with
  | _ count ih =>
    subst count
    have value : ∀ room, Bounded room c.rest.length (readValue room c) := fun room =>
      readValue_bounded_of (fun inner d shorter => (ih _ shorter d rfl).2.1 inner)
        (fun inner d shorter => (ih _ shorter d rfl).2.2 inner [])
    refine ⟨value, fun room => ?_, fun room before => ?_⟩
    · exact readItems_bounded_of (value room) (fun d shorter => (ih _ shorter d rfl).2.1 room)
    · exact readEntries_bounded_of before (fun d shorter => (ih _ shorter d rfl).1 room)
        (fun before d shorter => (ih _ shorter d rfl).2.2 room before)

end Reader

/-- Whatever keeps a text from being read, its characters can lead to it. -/
theorem Value.within_of_read {text : List Char} {fault : ReadFault}
    (fails : Value.read text = .error fault) : fault.Within Value.mostNested text.length := by
  unfold Value.read at fails
  split at fails
  · cases fails
    trivial
  · split at fails
    · rename_i failure read
      cases fails
      have within := (Reader.bounded _).1 _ fault read
      have shorter := Reader.Cursor.skipSpace_le ⟨text, 0⟩
      exact Reader.within_mono within shorter (Nat.add_le_add_left shorter _)
    · dsimp only at fails
      split at fails
      · cases fails
      · cases fails
        trivial

/-- A text of few characters is read or is no document. -/
theorem Value.malformed_of_read {text : List Char} (short : text.length ≤ Value.mostNested)
    {fault : ReadFault} (fails : Value.read text = .error fault) : ∃ e, fault = .malformed e := by
  have within := Value.within_of_read fails
  cases fault with
  | malformed e => exact ⟨e, rfl⟩
  | longNumber digits =>
      have few : digits ≤ 985 := Nat.le_trans within.2 short
      have many : 4300 < digits := within.1
      omega
  | tooDeep => exact absurd within (Nat.not_lt.mpr short)

end StackingPlanner
