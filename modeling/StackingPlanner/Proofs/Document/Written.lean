import StackingPlanner.Document.Writer
import StackingPlanner.Number.Shortest
import StackingPlanner.Proofs.Number.Digits
import StackingPlanner.Proofs.Text.Parts

/-!
# Written documents have no carriage returns

In texts a carriage return is escaped, and nothing else that is written holds
one.  So line feeds are all that ends a line of a written document.
-/

namespace StackingPlanner

def NoReturn (s : String) : Prop := '\r' ∉ s.toList

instance (s : String) : Decidable (NoReturn s) := inferInstanceAs (Decidable ('\r' ∉ s.toList))

namespace NoReturn

variable {s t : String}

theorem append (first : NoReturn s) (second : NoReturn t) : NoReturn (s ++ t) := by
  rw [NoReturn, String.toList_append, List.mem_append, not_or]
  exact ⟨first, second⟩

theorem ofList {cs : List Char} (free : '\r' ∉ cs) : NoReturn (String.ofList cs) := by
  rwa [NoReturn, String.toList_ofList]

theorem join {texts : List String} (each : ∀ t ∈ texts, NoReturn t) :
    NoReturn (String.join texts) := by
  rw [NoReturn, String.toList_join]
  rintro inside
  obtain ⟨t, member, here⟩ := List.mem_flatMap.mp inside
  exact each t member here

theorem intercalate {texts : List String} (between : NoReturn s)
    (each : ∀ t ∈ texts, NoReturn t) : NoReturn (s.intercalate texts) := by
  have apart : ∀ part ∈ texts.map String.toList, ∀ c ∈ part, c ≠ '\r' := by
    intro part member c inside
    obtain ⟨t, listed, rfl⟩ := List.mem_map.mp member
    exact ne_of_mem_of_not_mem inside (each t listed)
  rw [NoReturn, String.toList_intercalate]
  exact fun inside => List.forall_mem_intercalate
    (fun c member => ne_of_mem_of_not_mem member between) apart _ inside rfl

/-! ## Numbers -/

theorem digitChar : ∀ n < 16, n.digitChar ≠ '\r' := by decide

/-- No digit of a number in a base up to the hexadecimal one is a carriage return. -/
theorem toDigits {base : Nat} (positional : 1 < base) (small : base ≤ 16) (n : Nat) :
    '\r' ∉ Nat.toDigits base n := by
  have other : ∀ c ∈ Nat.toDigits base n, c ≠ '\r' :=
    Number.forall_mem_toDigits positional
      (fun d below => digitChar d (Nat.lt_of_lt_of_le below small)) n
  exact fun member => other _ member rfl

theorem nat (n : Nat) : NoReturn (toString n) :=
  ofList (toDigits (by decide) (by decide) n)

theorem int (n : Int) : NoReturn (toString n) := by
  cases n with
  | ofNat n => exact nat n
  | negSucc n => exact append (s := "-") (by decide) (nat (n + 1))

theorem hex (width n : Nat) : NoReturn (Text.hex width n) := by
  apply ofList
  rw [List.mem_append, not_or]
  exact ⟨fun padding => absurd (List.eq_of_mem_replicate padding) (by decide),
    toDigits (by decide) (by decide) n⟩

theorem padZeros (width : Nat) (free : NoReturn s) : NoReturn (Number.padZeros width s) := by
  refine append (ofList ?_) free
  exact fun padding => absurd (List.eq_of_mem_replicate padding) (by decide)

theorem signed (negative : Bool) (free : NoReturn s) : NoReturn (Number.signed negative s) := by
  cases negative with
  | false => exact free
  | true => exact append (by decide) free

theorem decimal (layout : Number.Layout) (value : Number.Decimal) :
    NoReturn (value.text layout) := by
  have digits := toDigits (by decide : 1 < 10) (by decide) value.digits
  have first : ∀ count, NoReturn (String.ofList ((Nat.toDigits 10 value.digits).take count)) :=
    fun count => ofList fun member => digits (List.mem_of_mem_take member)
  have rest : ∀ count, NoReturn (String.ofList ((Nat.toDigits 10 value.digits).drop count)) :=
    fun count => ofList fun member => digits (List.mem_of_mem_drop member)
  have zeros : ∀ count, NoReturn (String.ofList (List.replicate count '0')) := fun count =>
    ofList fun member => absurd (List.eq_of_mem_replicate member) (by decide)
  have point : NoReturn "." := by decide
  unfold Number.Decimal.text
  dsimp only
  split
  · split
    · exact append (by decide) (padZeros _ (ofList digits))
    · refine append (append (append (first _) (zeros _)) point) ?_
      split
      · decide
      · exact rest _
  · refine append (append (append (append (first _) ?_) (by decide)) ?_) (padZeros _ (nat _))
    · split
      · decide
      · exact append point (rest _)
    · split <;> decide

theorem number (n : Number) : NoReturn (Value.writtenNumber n) := by
  cases n with
  | whole n => exact int n
  | real x =>
      unfold Value.writtenNumber
      dsimp only
      split
      · decide
      · exact signed _ (by decide)
      · unfold Number.floatText
        split
        · decide
        · exact signed _ (by decide)
        · refine signed _ ?_
          split
          · decide
          · exact decimal _ _

/-! ## Texts -/

theorem charEscape (c : Char) : NoReturn (Value.charEscape c) := by
  have escape : ∀ n, NoReturn (Value.unitEscape n) := fun n => append (by decide) (hex 4 n)
  unfold Value.charEscape
  dsimp only
  split
  · exact escape _
  · exact append (escape _) (escape _)

theorem writtenChar (keepsUnicode : Bool) (c : Char) :
    NoReturn (Value.writtenChar keepsUnicode c) := by
  unfold Value.writtenChar
  iterate 3
    split
    · decide
  split
  · decide
  · rename_i other
    iterate 3
      split
      · decide
    split
    · exact charEscape c
    · split
      · simpa [NoReturn] using Ne.symm other
      · exact charEscape c

theorem writtenText (keepsUnicode : Bool) (s : String) :
    NoReturn (Value.writtenText keepsUnicode s) := by
  refine append (append (by decide) (join fun t member => ?_)) (by decide)
  obtain ⟨c, -, rfl⟩ := List.mem_map.mp member
  exact writtenChar keepsUnicode c

/-! ## Values -/

theorem lineStart (level : Nat) : NoReturn (Value.lineStart level) := by
  refine append (by decide) (ofList ?_)
  exact fun member => absurd (List.eq_of_mem_replicate member) (by decide)

theorem block {opening closing : String} (opens : NoReturn opening) (closes : NoReturn closing)
    (level : Nat) {lines : List String} (each : ∀ line ∈ lines, NoReturn line) :
    NoReturn (Value.block opening closing level lines) := by
  unfold Value.block
  split
  · exact append opens closes
  · have between := append (by decide : NoReturn ",") (lineStart (level + 1))
    exact append (append (append (append opens (lineStart _)) (intercalate between each))
      (lineStart _)) closes

mutual

theorem writeAt (keepsUnicode : Bool) (level : Nat) :
    ∀ value : Value, NoReturn (value.writeAt keepsUnicode level)
  | .null => (by decide : NoReturn "null")
  | .bool true => (by decide : NoReturn "true")
  | .bool false => (by decide : NoReturn "false")
  | .number n => number n
  | .text s => writtenText keepsUnicode s
  | .list items => block (by decide) (by decide) level (writeItems keepsUnicode (level + 1) items)
  | .object entries =>
      block (by decide) (by decide) level (writeEntries keepsUnicode (level + 1) entries)

theorem writeItems (keepsUnicode : Bool) (level : Nat) :
    ∀ items : List Value, ∀ line ∈ Value.writeItems keepsUnicode level items, NoReturn line
  | [] => by simp [Value.writeItems]
  | item :: rest =>
      List.forall_mem_cons.mpr ⟨writeAt keepsUnicode level item, writeItems keepsUnicode level rest⟩

theorem writeEntries (keepsUnicode : Bool) (level : Nat) :
    ∀ entries : Entries, ∀ line ∈ Value.writeEntries keepsUnicode level entries, NoReturn line
  | [] => by simp [Value.writeEntries]
  | (key, value) :: rest =>
      List.forall_mem_cons.mpr
        ⟨append (append (writtenText keepsUnicode key) (by decide))
            (writeAt keepsUnicode level value),
          writeEntries keepsUnicode level rest⟩

end

end NoReturn

/-- No character of a written document is a carriage return. -/
theorem Value.noReturn_write (value : Value) : NoReturn value.write :=
  NoReturn.writeAt false 0 value

end StackingPlanner
