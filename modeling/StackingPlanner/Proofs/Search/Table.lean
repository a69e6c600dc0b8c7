import StackingPlanner.Search.DeadEndTable

/-!
# What a dead-end table can be trusted with

If everything that was ever recorded in a table is true, then everything in it
is: looking up only touches a key, recording keeps one of two recorded numbers,
and forgetting takes entries away.  As long as nothing has to be forgotten, a
table knows everything that was recorded in it.
-/

namespace StackingPlanner

namespace DeadEndTable

variable {κ ρ : Type} [BEq κ] [Hashable κ]

/-- Every entry of a table states something true. -/
def Vouches (true? : κ → ρ → Prop) (t : DeadEndTable κ ρ) : Prop :=
  ∀ key entry, t.entries[key]? = some entry → true? key entry.remaining

variable {true? : κ → ρ → Prop} {t u : DeadEndTable κ ρ} {key : κ} {remaining : ρ}

@[simp]
theorem capacity_store (t : DeadEndTable κ ρ) (key : κ) (remaining : ρ) :
    (t.store key remaining).capacity = t.capacity := rfl

@[simp]
theorem capacity_forgetOldest (t : DeadEndTable κ ρ) : t.forgetOldest.capacity = t.capacity := by
  unfold forgetOldest
  split <;> rfl

@[simp]
theorem capacity_isDeadEnd [LE ρ] [DecidableLE ρ] (t : DeadEndTable κ ρ) (key : κ)
    (remaining : ρ) : (t.isDeadEnd key remaining).2.capacity = t.capacity := by
  unfold isDeadEnd
  split
  · dsimp only
    split <;> rfl
  · rfl

theorem capacity_record? [LT ρ] [DecidableLT ρ] (recorded : t.record? key remaining = some u) :
    u.capacity = t.capacity := by
  unfold record? at recorded
  split at recorded
  · cases recorded
    rfl
  · split at recorded
    · cases recorded
    · cases recorded
      split <;> simp

theorem exists_record? [LT ρ] [DecidableLT ρ] (room : t.isNarrow = false) (key : κ)
    (remaining : ρ) : ∃ u, t.record? key remaining = some u := by
  unfold record?
  split
  · exact ⟨_, rfl⟩
  · rw [room]
    exact ⟨_, rfl⟩

theorem vouches_of_empty (none : t.entries = ∅) : t.Vouches true? := by
  intro key entry found
  rw [none, Std.HashMap.getElem?_empty] at found
  cases found

/-- What a look-up confirms was recorded, with no fewer steps. -/
theorem Vouches.of_isDeadEnd [LE ρ] [DecidableLE ρ] (vouches : t.Vouches true?)
    (known : (t.isDeadEnd key remaining).1 = true) :
    ∃ recorded, true? key recorded ∧ remaining ≤ recorded := by
  unfold DeadEndTable.isDeadEnd at known
  split at known
  · rename_i entry found
    dsimp only at known
    split at known
    · rename_i covers
      exact ⟨entry.remaining, vouches key entry found, covers⟩
    · cases known
  · cases known

variable [LawfulBEq κ]

theorem Vouches.store (vouches : t.Vouches true?) (isTrue : true? key remaining) :
    (t.store key remaining).Vouches true? := by
  intro other entry found
  have lookup : (t.entries.insert key ⟨remaining, t.time⟩)[other]? = some entry := found
  rw [Std.HashMap.getElem?_insert] at lookup
  split at lookup
  · rename_i same
    cases lookup
    exact eq_of_beq same ▸ isTrue
  · exact vouches other entry lookup

theorem Vouches.forgetOldest (vouches : t.Vouches true?) : t.forgetOldest.Vouches true? := by
  unfold DeadEndTable.forgetOldest
  split
  · intro other entry found
    rw [Std.HashMap.getElem?_erase] at found
    split at found
    · cases found
    · exact vouches other entry found
  · exact vouches

theorem Vouches.isDeadEnd [LE ρ] [DecidableLE ρ] (vouches : t.Vouches true?) (key : κ)
    (remaining : ρ) : (t.isDeadEnd key remaining).2.Vouches true? := by
  unfold DeadEndTable.isDeadEnd
  split
  · rename_i entry found
    have touched := vouches.store (vouches key entry found)
    dsimp only
    split
    · exact touched
    · exact touched
  · exact vouches

/-- Recording something true leaves a table trustworthy, whatever it forgets for that. -/
theorem Vouches.record? [LT ρ] [DecidableLT ρ] (vouches : t.Vouches true?)
    (isTrue : true? key remaining) (recorded : t.record? key remaining = some u) :
    u.Vouches true? := by
  unfold DeadEndTable.record? at recorded
  split at recorded
  · rename_i entry found
    cases recorded
    split
    · exact vouches.store isTrue
    · exact vouches.store (vouches key entry found)
  · split at recorded
    · cases recorded
    · cases recorded
      split
      · exact vouches.forgetOldest.store isTrue
      · exact vouches.store isTrue

/-! ## What a table knows -/

/-- A table knows that a key fails with a number of remaining steps. -/
def Knows (t : DeadEndTable κ Int) (key : κ) (steps : Int) : Prop :=
  ∃ entry, t.entries[key]? = some entry ∧ steps ≤ entry.remaining

section Knows

variable {t u : DeadEndTable κ Int} {key other : κ} {remaining steps : Int}

omit [LawfulBEq κ] in
/-- A look-up confirms exactly what a table knows. -/
theorem isDeadEnd_iff : (t.isDeadEnd key steps).1 = true ↔ t.Knows key steps := by
  unfold isDeadEnd Knows
  cases found : t.entries[key]? with
  | none => simp
  | some entry => by_cases covers : steps ≤ entry.remaining <;> simp [covers]

theorem knows_store (t : DeadEndTable κ Int) (key : κ) (remaining : Int) :
    (t.store key remaining).Knows key remaining :=
  ⟨⟨remaining, t.time⟩, Std.HashMap.getElem?_insert_self, Int.le_refl _⟩

/-- Storing no less than a table knows of a key loses nothing. -/
theorem Knows.store (knows : t.Knows other steps)
    (more : ∀ entry, t.entries[key]? = some entry → entry.remaining ≤ remaining) :
    (t.store key remaining).Knows other steps := by
  obtain ⟨entry, found, covers⟩ := knows
  by_cases same : key = other
  · subst same
    exact ⟨_, Std.HashMap.getElem?_insert_self, Int.le_trans covers (more entry found)⟩
  · refine ⟨entry, ?_, covers⟩
    have kept : (t.entries.insert key ⟨remaining, t.time⟩)[other]? = t.entries[other]? := by
      rw [Std.HashMap.getElem?_insert, if_neg (fun is => same (eq_of_beq is))]
    exact kept.trans found

theorem Knows.isDeadEnd (knows : t.Knows other steps) (key : κ) (remaining : Int) :
    (t.isDeadEnd key remaining).2.Knows other steps := by
  unfold DeadEndTable.isDeadEnd
  split
  · rename_i entry found
    have touched : (t.store key entry.remaining).Knows other steps := by
      refine knows.store (fun earlier is => ?_)
      cases found.symm.trans is
      exact Int.le_refl _
    dsimp only
    split
    · exact touched
    · exact touched
  · exact knows

theorem knows_record? (recorded : t.record? key remaining = some u) : u.Knows key remaining := by
  unfold DeadEndTable.record? at recorded
  split at recorded
  · rename_i entry found
    cases recorded
    split
    · exact knows_store t key remaining
    · rename_i covers
      obtain ⟨stored, is, atLeast⟩ := knows_store t key entry.remaining
      exact ⟨stored, is, Int.le_trans (Int.not_lt.mp covers) atLeast⟩
  · split at recorded
    · cases recorded
    · cases recorded
      exact knows_store _ key remaining

/-- Recording loses nothing if there is a place for a new key. -/
theorem Knows.record? (knows : t.Knows other steps)
    (place : t.entries[key]? = none → t.isFull = false)
    (recorded : t.record? key remaining = some u) : u.Knows other steps := by
  unfold DeadEndTable.record? at recorded
  split at recorded
  · rename_i entry found
    cases recorded
    refine knows.store (fun earlier is => ?_)
    cases found.symm.trans is
    split
    · rename_i less
      exact Int.le_of_lt less
    · exact Int.le_refl _
  · rename_i new
    split at recorded
    · cases recorded
    · cases recorded
      rw [place new]
      refine knows.store (fun entry is => ?_)
      cases new.symm.trans is

end Knows

end DeadEndTable

end StackingPlanner
