import Mathlib.Data.List.Forall2
import StackingPlanner.Proofs.Schema.Positions

/-!
# What a run leaves true

After any number of choices a fluent has the sign that the last action gave it
that mentions it, and if no action mentions it, it is as it was.  The choices
need not be possible where they are made, and it does not matter in which order
the effects of an action are brought about.
-/

namespace StackingPlanner

namespace Action

def Mentions (a : Action) (f : Fluent) : Prop := ∃ l ∈ a.effects, l.fluent = f

/-- No literal is an effect together with its contrary. -/
def Consistent (a : Action) : Prop := ∀ l ∈ a.effects, l.contrary ∉ a.effects

end Action

namespace State

variable {s : State} {f : Fluent} {a : Action} {choices : List Choice}

def afterAll (s : State) (choices : List Choice) : State := choices.foldl after s

/-- A list of exactly the effects of a choice, in any order; without an action there are none. -/
def ListsEffects (listed : List Literal) (choice : Choice) : Prop :=
  ∀ l, l ∈ listed ↔ ∃ a, choice = some a ∧ l ∈ a.effects

/--
What is said last of a fluent: its sign in the effects of the last action that
mentions it, or nothing if there is no such action.
-/
inductive SaidLast (f : Fluent) (choices : List Choice) : Option Bool → Prop where
  | sign {before later : List Choice} {a : Action} {sign : Bool}
      (split : choices = before ++ some a :: later) (effect : ⟨f, sign⟩ ∈ a.effects)
      (silent : ∀ b, some b ∈ later → ¬ b.Mentions f) : SaidLast f choices (some sign)
  | nothing (silent : ∀ b, some b ∈ choices → ¬ b.Mentions f) : SaidLast f choices none

/-! ## One choice -/

theorem bringAbout_congr {effects others : List Literal} (same : ∀ l, l ∈ effects ↔ l ∈ others) :
    s.bringAbout effects = s.bringAbout others := by
  refine eq_of_facts_eq rfl (OrderedSet.eq_of_mem_iff (fun f => ?_))
  simp only [mem_facts_bringAbout_iff, same]

theorem bringAbout_of_listsEffects {listed : List Literal} {choice : Choice}
    (lists : ListsEffects listed choice) : s.bringAbout listed = s.after choice := by
  cases choice with
  | none =>
      refine eq_of_facts_eq rfl (OrderedSet.eq_of_mem_iff (fun f => ?_))
      have empty : ∀ l, l ∉ listed := by simpa [ListsEffects] using lists
      simp [mem_facts_bringAbout_iff, empty]
  | some a =>
      have same : ∀ l, l ∈ listed ↔ l ∈ a.effects := by simpa [ListsEffects] using lists
      exact bringAbout_congr same

theorem isTrue_after_of_effect {sign : Bool} (consistent : a.Consistent)
    (effect : ⟨f, sign⟩ ∈ a.effects) : (s.after (some a)).isTrue f = sign := by
  cases sign with
  | true => exact decide_eq_true (mem_facts_bringAbout_iff.mpr (.inl effect))
  | false =>
      refine decide_eq_false (fun holds => ?_)
      rcases mem_facts_bringAbout_iff.mp holds with positive | ⟨-, unmentioned⟩
      · exact consistent _ effect positive
      · exact unmentioned _ effect rfl

theorem isTrue_after_of_not_mentions (silent : ¬ a.Mentions f) :
    (s.after (some a)).isTrue f = s.isTrue f := by
  refine decide_eq_decide.mpr (mem_facts_bringAbout_iff.trans ⟨?_, fun holds => .inr ⟨holds, ?_⟩⟩)
  · rintro (positive | ⟨holds, -⟩)
    · exact absurd ⟨_, positive, rfl⟩ silent
    · exact holds
  · exact fun l listed same => silent ⟨l, listed, same⟩

/-! ## Any number of choices -/

theorem isTrue_afterAll_of_silent (silent : ∀ b, some b ∈ choices → ¬ b.Mentions f) :
    (s.afterAll choices).isTrue f = s.isTrue f := by
  induction choices generalizing s with
  | nil => rfl
  | cons choice choices ih =>
      rw [afterAll, List.foldl_cons]
      refine (ih (fun b later => silent b (List.mem_cons_of_mem _ later))).trans ?_
      cases choice with
      | none => rfl
      | some a => exact isTrue_after_of_not_mentions (silent a List.mem_cons_self)

theorem exists_saidLast (f : Fluent) (choices : List Choice) :
    ∃ said, SaidLast f choices said := by
  -- By induction on the choices: a choice counts if nothing is said after it.
  induction choices with
  | nil => exact ⟨none, .nothing (fun b listed => nomatch listed)⟩
  | cons choice choices ih =>
      obtain ⟨said, last⟩ := ih
      cases last with
      | @sign before later a sign split effect silent =>
          have longer : choice :: choices = (choice :: before) ++ some a :: later :=
            congrArg (choice :: ·) split
          exact ⟨some sign, .sign longer effect silent⟩
      | nothing silent =>
          by_cases mentions : ∃ a, choice = some a ∧ a.Mentions f
          · obtain ⟨a, rfl, ⟨g, sign⟩, listed, rfl⟩ := mentions
            exact ⟨some sign, .sign (List.nil_append _).symm listed silent⟩
          · refine ⟨none, .nothing (fun b listed => ?_)⟩
            rcases List.mem_cons.mp listed with here | later
            · exact fun spoken => mentions ⟨b, here.symm, spoken⟩
            · exact silent b later

theorem isTrue_afterAll_of_saidLast {said : Option Bool}
    (consistent : ∀ a, some a ∈ choices → a.Consistent) (last : SaidLast f choices said) :
    (s.afterAll choices).isTrue f = said.getD (s.isTrue f) := by
  cases last with
  | nothing silent => exact isTrue_afterAll_of_silent silent
  | @sign before later a sign split effect silent =>
      have sound : a.Consistent := consistent a (by rw [split]; simp)
      calc (s.afterAll choices).isTrue f
          = (((s.afterAll before).after (some a)).afterAll later).isTrue f := by
            rw [split, afterAll, List.foldl_append, List.foldl_cons]
            rfl
        _ = ((s.afterAll before).after (some a)).isTrue f := isTrue_afterAll_of_silent silent
        _ = sign := isTrue_after_of_effect sound effect

theorem foldl_bringAbout {listings : List (List Literal)}
    (lists : List.Forall₂ ListsEffects listings choices) :
    listings.foldl bringAbout s = s.afterAll choices := by
  induction lists generalizing s with
  | nil => rfl
  | cons listed _ ih => rw [List.foldl_cons, bringAbout_of_listsEffects listed, ih]; rfl

theorem afterAll_scope (s : State) (choices : List Choice) :
    (s.afterAll choices).scope = s.scope := by
  induction choices generalizing s with
  | nil => rfl
  | cons choice choices ih => exact (ih (s.after choice)).trans (s.after_scope choice)

/--
After any choices whose actions are consistent, every fluent is as it was said
last to be, or else as it was at first.  The same state is reached in whatever
order the effects of each choice are listed, and its scope stays the same.
-/
theorem afterAll_frame (s : State) (choices : List Choice)
    (consistent : ∀ a, some a ∈ choices → a.Consistent) :
    (∀ f, (∃ said, SaidLast f choices said) ∧
        ∀ said, SaidLast f choices said →
          (s.afterAll choices).isTrue f = said.getD (s.isTrue f)) ∧
      (∀ listings, List.Forall₂ ListsEffects listings choices →
        listings.foldl bringAbout s = s.afterAll choices) ∧
      (s.afterAll choices).scope = s.scope :=
  ⟨fun f => ⟨exists_saidLast f choices, fun _ last =>
    isTrue_afterAll_of_saidLast consistent last⟩, fun _ lists => foldl_bringAbout lists,
    s.afterAll_scope choices⟩

/-- The disc is lifted, which nothing said later takes back. -/
theorem afterAll_frame_loneDisc :
    Search.loneDiscLift.Consistent ∧
      (Search.loneDiscStart.afterAll [none, some Search.loneDiscLift, none]).isTrue
        (.holding "a") = true := by
  have consistent : Search.loneDiscLift.Consistent := by
    unfold Action.Consistent
    decide
  have only : ∀ a, some a ∈ [none, some Search.loneDiscLift, none] → a.Consistent := by
    intro a listed
    obtain rfl : a = Search.loneDiscLift := by simpa using listed
    exact consistent
  have split : [none, some Search.loneDiscLift, none] =
      [none] ++ some Search.loneDiscLift :: [none] := rfl
  obtain ⟨said, -, -⟩ := afterAll_frame Search.loneDiscStart _ only
  exact ⟨consistent, (said (.holding "a")).2 (some true) (.sign split (by decide) (by simp))⟩

end State

end StackingPlanner
