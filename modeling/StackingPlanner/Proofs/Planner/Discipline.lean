import StackingPlanner.Proofs.Description.Failures
import StackingPlanner.Proofs.Schema.Positions
import StackingPlanner.Proofs.Search.InTurn

/-!
# What a planner makes of a document

A document is read, the problem that it describes is found, and the problem is
solved.  What goes wrong before the search blames the description, unless the
message about it would show a value that cannot be shown, and the search itself
always comes to a finding, whatever it may use up, however its threads take their
turns and whatever its clock shows.
-/

namespace StackingPlanner

/-- What the parts of a problem come from, if it is the one that a description states. -/
structure Description.States (d : Description) (problem : Problem) : Prop where
  built : Schema.build d.objects d.categories = .ok problem.schema
  initial : problem.schema.initialState d.initial = .ok problem.initial
  goal : problem.schema.goal d.goal = .ok problem.goal
  horizon : Problem.readHorizon d.horizon = .ok ⟨problem.horizon, problem.horizon_pos⟩

theorem Description.problem_eq_ok_iff {d : Description} {problem : Problem} :
    d.problem = .ok problem ↔ d.States problem := by
  constructor
  · intro states
    obtain ⟨schema, built, states⟩ := Except.exists_of_bind_eq_ok states
    obtain ⟨initial, described, states⟩ := Except.exists_of_bind_eq_ok states
    obtain ⟨goal, demanded, states⟩ := Except.exists_of_bind_eq_ok states
    unfold Problem.make at states
    split at states
    · rename_i read
      cases states
      exact ⟨built, described, demanded, read⟩
    · cases states
  · intro states
    simp only [Description.problem, Description.schema, states.built, states.initial, states.goal,
      Problem.make, states.horizon, bind, Except.bind]

/-- The problem of a description is about a schema that was accepted, and starts in a sane state. -/
theorem Description.sane_of_problem {d : Description} {problem : Problem}
    (states : d.problem = .ok problem) :
    problem.schema.Accepted ∧ problem.initial.scope = problem.schema.scope ∧
      problem.schema.Sane problem.initial := by
  obtain ⟨built, described, -, -⟩ := problem_eq_ok_iff.mp states
  have accepted := Schema.accepted_of_build built
  obtain ⟨sameScope, sane, -⟩ := Schema.sane_of_initialState accepted described
  exact ⟨accepted, sameScope, sane⟩

namespace Planner

variable {planner : Planner} {clock : Clock} {problem : Problem}

theorem employs_two (several : planner.branches = true) : planner.Employs 2 :=
  ⟨by decide, several⟩

theorem solve_of_branches (several : planner.branches = true) :
    planner.solve problem = (Branching.solve planner.settings problem).map (conclude problem) := by
  simp only [solve, explore, several, if_true, Branching.solve]
  cases Branching.explore planner.settings problem <;> rfl

theorem solve_of_single (single : planner.branches = false) :
    planner.solve problem = (Search.solve planner.settings problem).map (conclude problem) := by
  simp only [solve, explore, single, Bool.false_eq_true, if_false, Search.explore]
  cases Search.solve planner.settings problem <;> rfl

/-- What a planner returns with a clock that stands still is something that it can return. -/
theorem returns_solve (planner : Planner) (problem : Problem) :
    planner.Returns .still problem (planner.solve problem) := by
  cases several : planner.branches with
  | true =>
      rw [solve_of_branches several]
      exact .together several (employs_two several) (Branching.returns_solve (by decide))
  | false =>
      rw [solve_of_single several]
      exact .alone several

theorem returnsFor_solveDescription (planner : Planner) (d : Description) :
    planner.ReturnsFor .still d (planner.solveDescription d) := by
  unfold solveDescription
  cases states : d.problem with
  | error failure => exact .refused states
  | ok problem => exact .solved states (planner.returns_solve problem)

theorem exists_returns (planner : Planner) (clock : Clock) (problem : Problem) :
    ∃ result, planner.Returns clock problem result := by
  cases several : planner.branches with
  | true =>
      obtain ⟨result, returns⟩ := @Branching.exists_returnsFrom 2 planner.settings problem
        (by decide) (Meter.fresh planner.settings.budget clock).start
      exact ⟨_, .together several (employs_two several) returns⟩
  | false => exact ⟨_, .alone several⟩

theorem exists_returnsFor (planner : Planner) (clock : Clock) (d : Description) :
    ∃ result, planner.ReturnsFor clock d result := by
  cases states : d.problem with
  | error failure => exact ⟨_, .refused states⟩
  | ok problem =>
      obtain ⟨result, returns⟩ := planner.exists_returns clock problem
      exact ⟨result, .solved states returns⟩

/-- Solving a description is refused because of the description, or comes to a finding. -/
theorem finding_of_returnsFor {d : Description} (room : planner.settings.HasRoom)
    {result : Except Fault Finding} (returns : planner.ReturnsFor clock d result) :
    (∃ failure, d.problem = .error failure ∧ result = .error failure) ∨
      ∃ problem outcome, d.problem = .ok problem ∧ result = .ok (conclude problem outcome) ∧
        outcome.Answers problem.initial (problem.schema.leftmost? problem.goal.toList
          (problem.horizon - 1) problem.initial) := by
  cases returns with
  | refused senseless =>
      exact .inl ⟨_, senseless, rfl⟩
  | @solved problem states result returns =>
      obtain ⟨accepted, sameScope, sane⟩ := Description.sane_of_problem states
      obtain ⟨outcome, ends, answers⟩ :=
        answers_of_returns accepted ⟨fun _ => sameScope, fun _ => sane⟩ room returns
      exact .inr ⟨problem, outcome, states, ends, answers⟩

/--
Whatever a document holds, it is refused because of what it holds, when it is
read or when the problem that it describes is sought, or else every solve comes
to a finding: a plan, that there is none, or that the budget was used up.  The
threads cannot take turns forever, and when none can take a turn the search is
over, so a solve comes to some result, whatever its clock shows.  A refusal is an
error that blames the description, with two exceptions that take a document with
a value that cannot be shown: a number that is too long and containers that are
nested too deeply escape as errors of their own where a message would show them.
-/
theorem finding_of_document (room : planner.settings.HasRoom) (data defaultName : Value) :
    (∃ failure, Description.ofValue data defaultName = .error failure ∧
        failure.BlamesOrEscapes (data.Shown ∧ defaultName.Shown)) ∨
      ∃ d, Description.ofValue data defaultName = .ok d ∧
        planner.ReturnsFor .still d (planner.solveDescription d) ∧
        (∀ clock, ∃ result, planner.ReturnsFor clock d result) ∧
        (∀ workers problem, planner.Employs workers →
          WellFounded (fun later earlier =>
              Branching.Turn workers planner.settings problem earlier later) ∧
            ∀ p, (∀ q, ¬ Branching.Turn workers planner.settings problem p q) → p.IsOver) ∧
        ∀ clock result, planner.ReturnsFor clock d result →
          (∃ failure, d.problem = .error failure ∧ failure.BlamesOrEscapes data.Shown ∧
            result = .error failure) ∨
          ∃ problem finding, d.problem = .ok problem ∧ result = .ok finding ∧
            finding.problem = problem ∧
            finding.verdict.text ∈ ["success", "no_plan_within_horizon", "aborted"] := by
  cases read : Description.ofValue data defaultName with
  | error failure =>
      exact .inl ⟨failure, rfl, (Description.ofValue_blames _ _).blamesOrEscapes read⟩
  | ok d =>
      refine .inr ⟨d, rfl, planner.returnsFor_solveDescription d,
        fun clock => planner.exists_returnsFor clock d, fun workers problem employs => ⟨?_, ?_⟩,
        fun clock result returns => ?_⟩
      · exact Branching.Pool.wellFounded_turn
      · exact fun p => Branching.Pool.isOver_of_stuck employs.1
      · rcases finding_of_returnsFor room returns with
          ⟨failure, senseless, ends⟩ | ⟨problem, outcome, states, ends, _⟩
        · have blames : BlamesDescription data.Shown d.problem :=
            d.problem_blames.mono fun shown => Description.shown_of_ofValue shown read
          exact .inl ⟨failure, senseless, blames.blamesOrEscapes senseless, ends⟩
        · refine .inr ⟨problem, _, states, ends, rfl, ?_⟩
          cases verdict : outcome.verdict <;> simp [conclude, verdict, Verdict.text]

/-! ## A document on the lone disc -/

/-- The document that describes how the disc of the smallest tower puzzle is to be moved. -/
def loneDiscDocument : Value :=
  .object
    [("categories", .object
        [("disc", .object [("allowed_occupants", .list [.text "disc"])]),
          ("peg", .object
            [("allowed_occupants", .list [.text "disc"]), ("movable", .bool false)])]),
      ("objects", .object [("a", .text "disc"), ("p", .text "peg"), ("q", .text "peg")]),
      ("initial", .list [.text "on(a,p)"]), ("goal", .list [.text "on(a,q)"]),
      ("horizon", .whole 5)]

def loneDiscDescription : Description where
  categories := Puzzle.Tower.categories
  objects := Search.loneDiscObjects
  initial := [.holds (.on "a" "p")]
  goal := [.holds (.on "a" "q")]
  horizon := .whole 5

def pair : Planner := ⟨{}, .whole 2, by decide⟩

theorem hasRoom_pair : pair.settings.HasRoom :=
  SearchSettings.hasRoom_of_whole (by decide) rfl

theorem ofValue_loneDiscDocument :
    Description.ofValue loneDiscDocument (.text "domain") = .ok loneDiscDescription := rfl

theorem problem_loneDiscDescription :
    loneDiscDescription.problem = .ok Branching.loneDiscProblem := by
  have built : loneDiscDescription.schema = .ok Search.loneDisc := Search.build_loneDisc
  have described : Search.loneDisc.initialState loneDiscDescription.initial =
      .ok Search.loneDiscStart := Search.initialState_loneDisc
  have goal : Search.loneDisc.goal loneDiscDescription.goal = .ok Search.loneDiscGoal := rfl
  simp only [Description.problem, built, described, goal, bind, Except.bind]
  rfl

/-- A document that describes nothing, with a horizon. -/
def emptyDocument (horizon : Int) : Value :=
  .object
    [("categories", .object []), ("objects", .object []), ("initial", .list []),
      ("goal", .list []), ("horizon", .whole horizon)]

theorem ofValue_emptyDocument {horizon : Int} (below : horizon < 1) (defaultName : Value) :
    Description.ofValue (emptyDocument horizon) defaultName =
      .error (.describedHorizon (.whole horizon)) := by
  have refused : Description.readHorizon (.whole horizon) =
      .error (.describedHorizon (.whole horizon)) := if_pos below
  have found : Description.readSection [("categories", .object []), ("objects", .object []),
      ("initial", .list []), ("goal", .list []), ("horizon", .whole horizon)] "horizon" =
        .ok (.whole horizon) := rfl
  simp only [emptyDocument, Description.ofValue, Description.readObject, found, bind, Except.bind]
  change (Description.readHorizon (.whole horizon)).bind _ = _
  rw [refused]
  rfl

/--
The lone disc is found a way, and a horizon far below one is not told to be: a
number that is too long keeps the message about it from being formed.
-/
theorem finding_of_document_loneDisc :
    (∃ finding, pair.solveDescription loneDiscDescription = .ok finding ∧
      finding.problem = Branching.loneDiscProblem) ∧
      ∃ failure, Description.ofValue (emptyDocument (-10 ^ Number.mostDigits)) (.text "domain") =
          .error failure ∧
        failure.report = Value.Excess.longNumber.report := by
  constructor
  · rcases finding_of_document hasRoom_pair loneDiscDocument (.text "domain") with
      ⟨failure, refused, _⟩ | ⟨d, read, returns, _, _, finds⟩
    · cases ofValue_loneDiscDocument.symm.trans refused
    · cases ofValue_loneDiscDocument.symm.trans read
      rcases finds .still _ returns with
        ⟨failure, senseless, _⟩ | ⟨problem, finding, states, ends, same, _⟩
      · cases problem_loneDiscDescription.symm.trans senseless
      · cases problem_loneDiscDescription.symm.trans states
        exact ⟨finding, ends, same⟩
  · have escapes : ∀ horizon : Int, horizon < 1 → ¬ Number.Short horizon →
        ∃ failure, Description.ofValue (emptyDocument horizon) (.text "domain") = .error failure ∧
          failure.report = Value.Excess.longNumber.report := by
      intro horizon below long
      have refused := ofValue_emptyDocument below (.text "domain")
      rcases finding_of_document hasRoom_pair (emptyDocument horizon) (.text "domain") with
        ⟨failure, fails, comesOut⟩ | ⟨d, read, _⟩
      · cases refused.symm.trans fails
        exact ⟨_, fails, comesOut.escapes .longNumber (if_neg long)⟩
      · cases refused.symm.trans read
    exact escapes (-10 ^ Number.mostDigits) Number.neg_pow_lt_one
      (Number.not_short_neg_pow Nat.le.refl)

end Planner

end StackingPlanner
