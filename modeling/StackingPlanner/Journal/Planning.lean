import StackingPlanner.File.Path
import StackingPlanner.Journal.Operation
import StackingPlanner.Planner

/-!
# Journal records on planning

The records that are made when a description is loaded and checked and when
its problem is solved.
-/

namespace StackingPlanner

namespace Journal

def descriptions : Channel := { name := "component_9_domain_loader" }

def schemas : Channel := { name := "component_3_domain_schema" }

def planning : Channel := { name := "component_10_horizon_planner" }

def searching : Channel := { name := "component_6_search_engine" }

def branching : Channel := { name := "component_6_parallel_search" }

def loaded (path : Path) (d : Description) : Record :=
  descriptions.record .info "Domain description loaded"
    [("path", .text path.text), ("objects", .whole d.objects.length), ("horizon", d.horizon)]

def validated (schema : Schema) : Record :=
  schemas.record .info "Domain schema validated"
    [("objects", .whole schema.members.length), ("categories", .whole schema.categories.length),
      ("fluents", .whole schema.scope.size), ("actions", .whole schema.actions.length)]

def unplaced (object : String) : Record :=
  schemas.record .warning "Object has no initial position and can never be moved"
    [("object_name", .text object)]

def arrangementRecords (schema : Schema) (literals : List Literal) : List Record :=
  match schema.arrangement literals with
  | .ok a => (a.unplaced schema).map unplaced
  | .error _ => []

def problemRecords (d : Description) : List Record :=
  match d.schema with
  | .ok schema => validated schema :: arrangementRecords schema d.initial
  | .error _ => []

def solveStarted (planner : Planner) (problem : Problem) : Record :=
  planning.startRecord "solve"
    [("horizon", .whole problem.horizon), ("goal_literals", .whole problem.goal.size),
      ("actions", .whole problem.schema.actions.length), ("workers", .number planner.workers)]

def solveFinished (finding : Finding) : Record :=
  planning.endRecord "solve"
    (Entries.setAll [] (finding.entries ++
      [("plan_length", Value.orNull (fun p : Plan => .whole p.length) finding.plan?)]))

def searchRecords (settings : SearchSettings) (problem : Problem) (outcome : Outcome) :
    List Record :=
  [searching.record .debug "Search started"
      [("start_step", .whole outcome.startStep), ("horizon", .whole problem.horizon),
        ("goal_literals", .whole problem.goal.size),
        ("budget_nodes", Value.orNull .number settings.budget.maxNodes),
        ("budget_seconds", Value.orNull .number settings.budget.timeLimit)],
    searching.blockRecord "horizon_search" [("horizon", .whole problem.horizon)]
      settings.stopwatch.span none,
    searching.record .debug "Search finished" (outcome.verdict.entries outcome.statistics)]

/-- The records on all searches that were made, and on their branches if there were any. -/
def explorationRecords (planner : Planner) (problem : Problem) (e : Exploration) : List Record :=
  let searches := e.explored.flatMap (searchRecords planner.settings problem)
  match e.branches with
  | none => searches
  | some count =>
      branching.record .info "Parallel search started"
          [("branches", .whole count), ("workers", .number planner.workers)] ::
        searches ++
        [branching.record .info "Parallel search finished"
          (e.outcome.verdict.entries e.outcome.statistics)]

def solveRecords (planner : Planner) (problem : Problem) (e : Exploration) : List Record :=
  solveStarted planner problem :: explorationRecords planner problem e ++
    [solveFinished (Planner.finding problem e)]

end Journal

end StackingPlanner
