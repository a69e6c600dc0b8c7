import StackingPlanner.File.Store
import StackingPlanner.Main
import StackingPlanner.PlanCheck.Given
import StackingPlanner.Proof.Document
import StackingPlanner.Proof.Support
import StackingPlanner.Proofs.Search.Leftmost
import StackingPlanner.Reasoning
import StackingPlanner.Report.Named
import StackingPlanner.Schema.Lookup
import StackingPlanner.Search.Between
import StackingPlanner.Search.GivenTable
import StackingPlanner.Proofs.Search.Invariant
import StackingPlanner.Proofs.Search.Settings
import StackingPlanner.Proofs.Schema.Accepted
import StackingPlanner.Proofs.Schema.Sane
import StackingPlanner.Proofs.Schema.Verify
import StackingPlanner.Proofs.Search.Correct
import StackingPlanner.Proofs.Schema.Cycles
import StackingPlanner.Proofs.Search.Shortest
import StackingPlanner.Search.Pool
import StackingPlanner.Proofs.Search.Independence
import StackingPlanner.Proofs.Search.Branching
import StackingPlanner.Proofs.Search.Pool
import StackingPlanner.Proofs.Schema.Initial
import StackingPlanner.Proofs.Schema.Positions
import StackingPlanner.Proofs.Search.Checks
import StackingPlanner.Proofs.Search.Budgeted
import StackingPlanner.Planner.Returns
import StackingPlanner.Proofs.Search.Threads
import StackingPlanner.Proofs.Search.InTurn
import StackingPlanner.Proofs.Search.Refusals
import StackingPlanner.Proofs.Description.Failures
import StackingPlanner.Proofs.Planner.Discipline
import StackingPlanner.Proofs.Number.Share
import StackingPlanner.Proofs.Trail
import StackingPlanner.Proofs.PlanCheck.Played
import StackingPlanner.Proofs.Planner.Confirmed
import StackingPlanner.Proofs.Planner.Complete
import StackingPlanner.Proofs.Search.Threshold
import StackingPlanner.Proofs.Search.Trace
import StackingPlanner.Proofs.Search.Coherent
import StackingPlanner.Proofs.Search.Length
import StackingPlanner.Proofs.Search.SharedBudget
import StackingPlanner.Proofs.Reachable
import StackingPlanner.Proofs.Search.Expansions
import StackingPlanner.Proofs.Schema.Undo
import StackingPlanner.Proofs.Schema.Literals
import StackingPlanner.Proofs.Schema.Described
import StackingPlanner.Proofs.Schema.Restated
import StackingPlanner.Proofs.Planner.Unlimited
import StackingPlanner.Proofs.Planner.Horizon
import StackingPlanner.Proofs.Schema.Reordered
import StackingPlanner.Proofs.Planner.Reordered
import StackingPlanner.Proofs.Schema.Carry
import StackingPlanner.Proofs.Tower.Schema
import StackingPlanner.Proofs.Tower.Piles
import StackingPlanner.Proofs.Tower.Gather
import StackingPlanner.Proofs.Tower.Solvable
import StackingPlanner.Proofs.Text.Utf8
import StackingPlanner.Proofs.Document.Limits
import StackingPlanner.Proofs.Description.File
import StackingPlanner.Proofs.CommandLine.Options
import StackingPlanner.Proofs.Explanation
import StackingPlanner.Proofs.CommandLine.Run
import StackingPlanner.Proofs.Text.Parts
import StackingPlanner.Proofs.Number.Digits
import StackingPlanner.Proofs.Document.Written
import StackingPlanner.Proofs.Document.Keys
import StackingPlanner.Proofs.Fluent.Spelling
import StackingPlanner.Proofs.Document.Texts
import StackingPlanner.Proofs.Document.Numerals
import StackingPlanner.Proofs.Document.Reread
import StackingPlanner.Proofs.Description.Storable
import StackingPlanner.Proofs.Description.Restored
import StackingPlanner.Proofs.Planner.Reloaded
import StackingPlanner.Proofs.Search.Resumed
import StackingPlanner.Proofs.Search.Balance
import StackingPlanner.Proofs.Search.Recency
import StackingPlanner.Proofs.Search.Workload
import StackingPlanner.Proofs.Search.BranchWork
import StackingPlanner.Proofs.Schema.Grounding
import StackingPlanner.Proofs.Planner.Hand
import StackingPlanner.Proofs.PlanCheck.CarriedOut
import StackingPlanner.Proofs.PlanCheck.Validity
import StackingPlanner.Proofs.PlanCheck.Agreement
import StackingPlanner.Proofs.PlanCheck.Extracted
import StackingPlanner.Proofs.Frame
import StackingPlanner.Proofs.Search.Successes
import StackingPlanner.Proofs.Tower.Finished
import StackingPlanner.Proofs.Proof.Support
import StackingPlanner.Proofs.Proof.Descent
import StackingPlanner.Proofs.Explanation.Complete
import StackingPlanner.Proofs.Proof.Growth
import StackingPlanner.Proofs.Proof.Reread
import StackingPlanner.Proofs.Report
import StackingPlanner.Proofs.Search.Metering
