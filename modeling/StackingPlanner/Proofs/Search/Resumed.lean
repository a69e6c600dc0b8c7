import StackingPlanner.Proofs.Search.Correct

/-!
# Searches that are resumed

A search can be taken up again at any state of the timeline that it found: with
the steps that are left the rest of the timeline is found.  The states that the
first search remembers do not matter for that, nor do those that the second one
does not know, and how the steps are counted does not matter either.
-/

namespace StackingPlanner

namespace Timeline

def drop (t : Timeline) (count : Nat) : Timeline where
  states := t.states.drop count
  choices := t.choices.drop count
  fits := by
    have fits := t.fits
    simp only [List.length_drop]
    omega

theorem drop_zero (t : Timeline) : t.drop 0 = t := rfl

theorem drop_ofSteps_cons (s t : State) (choice : Choice) (steps : Steps) (count : Nat) :
    (ofSteps s ((choice, t) :: steps)).drop (count + 1) = (ofSteps t steps).drop count := rfl

end Timeline

namespace Schema

variable {schema : Schema} {goal : List Literal} {s : State} {count : Nat} {steps : Steps}

/--
The first of the steps that the plain search finds is a choice that can be made,
and the others are what it finds from the next state on.
-/
theorem exists_cons_of_leftmost?
    (found : schema.leftmost? goal (count + 1) s = some steps) :
    ∃ choice rest, steps = (choice, s.after choice) :: rest ∧ schema.Allows s choice ∧
      schema.leftmost? goal count (s.after choice) = some rest := by
  cases holds : s.satisfies goal with
  | true =>
      cases found.symm.trans (leftmost?_of_goal holds (count + 1))
      exact ⟨none, List.replicate count (none, s), rfl, trivial, leftmost?_of_goal holds count⟩
  | false =>
      rw [leftmost?_succ_of_not holds] at found
      obtain ⟨failed, choice, untried, rest, split, -, taken, rfl⟩ := tryEach_eq_some_iff.mp found
      exact ⟨choice, rest, rfl, mem_candidates_iff.mp (by simp [split]), taken⟩

/--
A walk leads to each state of what the plain search finds, and from there the
plain search finds what is left, in the steps that are left.
-/
theorem exists_rest_of_leftmost? (found : schema.leftmost? goal count s = some steps)
    {made : Nat} (within : made ≤ count) :
    ∃ choices t rest, schema.Walk s choices t ∧
      (Timeline.ofSteps s steps).states[made]? = some t ∧
      schema.leftmost? goal (count - made) t = some rest ∧
      (Timeline.ofSteps s steps).drop made = .ofSteps t rest := by
  induction made generalizing count s steps with
  | zero => exact ⟨[], s, steps, .nil s, rfl, found, Timeline.drop_zero _⟩
  | succ made ih =>
      obtain ⟨fewer, rfl⟩ : ∃ fewer, count = fewer + 1 := ⟨count - 1, by omega⟩
      obtain ⟨choice, others, rfl, allowed, onward⟩ := exists_cons_of_leftmost? found
      obtain ⟨choices, t, rest, walk, here, left, dropped⟩ :=
        ih onward (Nat.le_of_succ_le_succ within)
      have counted : fewer + 1 - (made + 1) = fewer - made := by omega
      refine ⟨choice :: choices, t, rest, .cons allowed walk, here, counted ▸ left, ?_⟩
      rw [Timeline.drop_ofSteps_cons]
      exact dropped

end Schema

namespace Search

variable {schema : Schema} {settings others : SearchSettings} {initial : State}
  {startStep horizon : Int} {meter otherMeter : Meter}

/-- Nothing hinders a search from a state to which a walk leads, at whatever step it starts. -/
theorem Unhindered.walk (free : Unhindered schema settings initial startStep meter)
    {choices : List Choice} {s : State} (walk : schema.Walk initial choices s) (step : Int) :
    Unhindered schema settings s step meter where
  built := free.built
  verified checked := by
    obtain ⟨sameScope, sane⟩ := free.sane checked
    have scope : s.scope = schema.scope := walk.scope_eq.trans sameScope
    exact ⟨scope, (Schema.verify_eq_ok_iff free.accepted scope _ _).mpr
      (sane.walk free.accepted walk)⟩
  unlimited := free.unlimited
  room := free.room

/--
An unhindered search comes to a verdict, and another one, with other settings,
comes to the same if its steps are counted from later on.  If the verdict is a
timeline, a search that is resumed at any step up to the horizon, in the state of
the timeline at that step, finds the rest of the timeline.
-/
theorem run_resumed (free : Unhindered schema settings initial startStep meter)
    (alsoFree : Unhindered schema others initial startStep otherMeter) (goal : OrderedSet Literal)
    (first : 1 ≤ startStep) (order : startStep ≤ horizon) :
    ∃ verdict,
      (run schema settings initial goal horizon startStep meter).1.map (·.verdict) =
        .ok verdict ∧
      (∀ later : Nat, (run schema others initial goal (horizon + later) (startStep + later)
        otherMeter).1.map (·.verdict) = .ok verdict) ∧
      ∀ t, verdict = .success t → ∀ made : Nat, startStep + made ≤ horizon →
        ∃ s, t.states[made]? = some s ∧
          (run schema others s goal horizon (startStep + made) otherMeter).1.map (·.verdict) =
            .ok (.success (t.drop made)) := by
  -- Each of the searches answers as the plain search does in the steps that it has left.
  refine ⟨_, (free.run free.room.roomy goal first order).1, fun later => ?_, ?_⟩
  · have shifted := alsoFree.walk (.nil initial) (startStep + later)
    have found := (shifted.run shifted.room.roomy goal (by omega : 1 ≤ startStep + (later : Int))
      (by omega : startStep + later ≤ horizon + later)).1
    have count : horizon + later - (startStep + later) = horizon - startStep := by omega
    rwa [count] at found
  · intro t success made within
    cases found : schema.leftmost? goal.toList (horizon - startStep).toNat initial with
    | none =>
        rw [found] at success
        cases success
    | some steps =>
        rw [found] at success
        cases success
        obtain ⟨choices, s, rest, walk, here, left, dropped⟩ :=
          Schema.exists_rest_of_leftmost? found (by omega : made ≤ (horizon - startStep).toNat)
        have resumed := alsoFree.walk walk (startStep + made)
        have result := (resumed.run resumed.room.roomy goal
          (by omega : 1 ≤ startStep + (made : Int)) within).1
        have count : (horizon - (startStep + made)).toNat =
            (horizon - startStep).toNat - made := by omega
        rw [count, left] at result
        exact ⟨s, here, dropped ▸ result⟩

/-- Resumed at the fourth step, a search without a table puts the disc down as before. -/
theorem run_resumed_loneDisc :
    ∃ t, (run loneDisc {} loneDiscStart loneDiscGoal 5 1 (Meter.fresh {} .still)).1.map
        (·.verdict) = .ok (.success t) ∧
      ∃ s, t.states[3]? = some s ∧
        (run loneDisc { usesTable := false } s loneDiscGoal 5 4 (Meter.fresh {} .still)).1.map
          (·.verdict) = .ok (.success (t.drop 3)) := by
  have bare : Unhindered loneDisc { usesTable := false } loneDiscStart 1 (Meter.fresh {} .still) :=
    { unhindered_loneDisc with room := nofun }
  obtain ⟨verdict, ends, -, resumed⟩ :=
    run_resumed unhindered_loneDisc bare loneDiscGoal (by decide : (1 : Int) ≤ 1)
      (by decide : (1 : Int) ≤ 5)
  have reachable : (loneDisc.leftmost? loneDiscGoal.toList 4 loneDiscStart).isSome = true := by
    decide +kernel
  obtain ⟨steps, found⟩ := Option.isSome_iff_exists.mp reachable
  have plain := (unhindered_loneDisc.run unhindered_loneDisc.room.roomy loneDiscGoal
    (by decide : (1 : Int) ≤ 1) (by decide : (1 : Int) ≤ 5)).1
  have same : verdict = .success (Timeline.ofSteps loneDiscStart steps) := by
    have left : ((5 : Int) - 1).toNat = 4 := rfl
    rw [left, found] at plain
    exact Except.ok.inj (ends.symm.trans plain)
  exact ⟨_, same ▸ ends, resumed _ same 3 (by decide)⟩

end Search

end StackingPlanner
