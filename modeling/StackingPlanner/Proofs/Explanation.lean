import StackingPlanner.Explanation
import StackingPlanner.Proof.Listing
import StackingPlanner.Proofs.Except

/-!
# Explanations can be listed

A step can be listed if its inputs are a list of texts.  The inputs of a step of
an explanation are the texts of literals or none at all, so every explanation
can be listed.
-/

namespace StackingPlanner

namespace ProofStep

variable {s : ProofStep}

def HasTexts (s : ProofStep) : Prop := ∃ texts, s.inputs = Value.texts texts

theorem mem_of_mem_firstItems {α : Type} {count : Int} {items : List α} {item : α}
    (member : item ∈ firstItems count items) : item ∈ items :=
  List.mem_of_mem_take member

theorem HasTexts.exists_inputsLine (known : s.HasTexts) :
    ∃ line, s.inputsLine usualInputs = .ok line := by
  obtain ⟨texts, same⟩ := known
  have items : s.inputItems = .ok (texts.map Value.text) := by
    rw [inputItems, same]
    rfl
  obtain ⟨shown, taken⟩ : ∃ shown,
      (firstItems 4 (texts.map Value.text)).mapM Value.takeText = .ok shown := by
    refine Except.exists_mapM_eq_ok (fun value member => ?_)
    obtain ⟨text, -, rfl⟩ := List.mem_map.mp (mem_of_mem_firstItems member)
    exact ⟨text, rfl⟩
  have four : usualInputs.whole? = some 4 := rfl
  simp only [inputsLine, items, four, taken, bind, Except.bind]
  exact ⟨_, rfl⟩

theorem HasTexts.exists_listing (known : s.HasTexts) (details : Bool) :
    ∃ text, s.listing details usualInputs = .ok text := by
  obtain ⟨line, listed⟩ := known.exists_inputsLine
  obtain ⟨inputs, read⟩ : ∃ inputs, s.inputLines usualInputs = .ok inputs := by
    rw [inputLines, listed]
    cases s.inputs.counts
    · exact ⟨[], rfl⟩
    · exact ⟨[line], rfl⟩
  cases details with
  | false => exact ⟨_, rfl⟩
  | true =>
      simp only [listing, lines, if_true, read, bind, Except.bind]
      exact ⟨_, rfl⟩

end ProofStep

namespace Proof

theorem exists_listing_of_hasTexts {p : Proof} (known : ∀ s ∈ p.steps, s.HasTexts)
    (details : Bool) : ∃ text, p.listing details = .ok text := by
  obtain ⟨listed, each⟩ : ∃ listed,
      p.steps.mapM (fun s => s.listing details ProofStep.usualInputs) = .ok listed :=
    Except.exists_mapM_eq_ok (fun s member => (known s member).exists_listing details)
  obtain ⟨lines, complete⟩ : ∃ lines, p.stepLines details = .ok lines := by
    unfold stepLines
    split
    · exact ⟨_, rfl⟩
    · rw [each]
      exact ⟨_, rfl⟩
  simp only [listing, complete, bind, Except.bind]
  exact ⟨_, rfl⟩

end Proof

namespace Explanation

theorem hasTexts_choiceSteps (step : Nat) (parent : String) (choices : List Choice) :
    ∀ s ∈ choiceSteps step parent choices, s.HasTexts := by
  induction choices generalizing step parent with
  | nil => nofun
  | cons choice rest ih =>
      intro s member
      rcases List.mem_cons.mp member with rfl | later
      · cases choice with
        | none => exact ⟨[], rfl⟩
        | some action => exact ⟨literalTexts action.preconditions, rfl⟩
      · exact ih _ _ s later

theorem hasTexts_ofFinding (finding : Finding) (query : Value) :
    ∀ s ∈ (ofFinding finding query).steps, s.HasTexts := by
  intro s member
  rcases List.mem_append.mp member with premise | outcome
  · rcases List.mem_cons.mp premise with rfl | second
    · exact ⟨[], rfl⟩
    · rw [List.mem_singleton.mp second]
      exact ⟨[], rfl⟩
  · unfold outcomeSteps at outcome
    split at outcome
    · rcases List.mem_append.mp outcome with choice | last
      · exact hasTexts_choiceSteps _ _ _ s choice
      · rw [List.mem_singleton.mp last]
        exact ⟨[], rfl⟩
    · rw [List.mem_singleton.mp outcome]
      exact ⟨[], rfl⟩

/-- Every explanation can be listed. -/
theorem exists_listing (finding : Finding) (query : Value) (details : Bool) :
    ∃ text, (explain finding query).listing details = .ok text :=
  Proof.exists_listing_of_hasTexts (hasTexts_ofFinding finding _) details

end Explanation

end StackingPlanner
