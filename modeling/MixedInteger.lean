import MixedInteger.Number.Double
import MixedInteger.Text.Case
import MixedInteger.Text.Identifier
import MixedInteger.Data.Value
import MixedInteger.Problem.Edit
import MixedInteger.Problem.LinearProgram
import MixedInteger.Problem.Query
import MixedInteger.Parameter.Store
import MixedInteger.Model.Registry
import MixedInteger.Model.NameIndex
import MixedInteger.Journal
import MixedInteger.Fault
import MixedInteger.Continuous.Simplex
import MixedInteger.Continuous.Optimum
import MixedInteger.Search.Run
import MixedInteger.Solver.Exact
import MixedInteger.Model.Copy
import MixedInteger.Model.Setting
import MixedInteger.Model.Result
import MixedInteger.Model.Optimize
import MixedInteger.Data.Json
import MixedInteger.Exchange.ModelStep
import MixedInteger.Exchange.ProblemStep
import MixedInteger.Formula.Basic
import MixedInteger.Formula.Reader
import MixedInteger.Formula.Evaluation
import MixedInteger.Exchange.Job
import MixedInteger.Exchange.Algebraic
import MixedInteger.Markup.Content
import MixedInteger.Markup.Document
import MixedInteger.Job.Load
import MixedInteger.Command.Run
import MixedInteger.Main
import MixedInteger.Proofs.Model.Registry
import MixedInteger.Proofs.Model.Shelf
import MixedInteger.Proofs.Number.Order
import MixedInteger.Proofs.Problem.Edit
import MixedInteger.Proofs.Model.WellFormed
import MixedInteger.Proofs.Model.Canonical
import MixedInteger.Proofs.Model.Run
import MixedInteger.Proofs.Model.Effect
import MixedInteger.Proofs.Model.RowEffect
import MixedInteger.Proofs.Model.Call
import MixedInteger.Proofs.Model.Ledger
import MixedInteger.Proofs.Model.Consolidation
import MixedInteger.Proofs.Model.History
import MixedInteger.Proofs.Model.Represents
import MixedInteger.Proofs.Model.Simulation
import MixedInteger.Proofs.Model.Refinement
import MixedInteger.Proofs.Model.Bounds
import MixedInteger.Proofs.Model.Naming
import MixedInteger.Proofs.Model.NamingStep
import MixedInteger.Proofs.Model.NamingRun
import MixedInteger.Proofs.Model.NameLookup
import MixedInteger.Proofs.Model.Renaming
import MixedInteger.Proofs.Model.Sound
import MixedInteger.Proofs.Number.Extended
import MixedInteger.Proofs.Number.DoubleParts
import MixedInteger.Proofs.Model.Listing
import MixedInteger.Proofs.Model.Renumbering
import MixedInteger.Proofs.Model.Copying
import MixedInteger.Proofs.Model.CopyRun
import MixedInteger.Proofs.Model.Copied
import MixedInteger.Proofs.Model.Reachable
import MixedInteger.Proofs.Problem.Point
import MixedInteger.Proofs.Solver.Answers
import MixedInteger.Proofs.Solver.Session
import MixedInteger.Proofs.Continuous.Relaxation
import MixedInteger.Proofs.Search.Node
import MixedInteger.Proofs.Search.Choice
import MixedInteger.Proofs.Search.Cover
import MixedInteger.Proofs.Search.Growth
import MixedInteger.Proofs.Search.Setting
import MixedInteger.Proofs.Search.Step
import MixedInteger.Proofs.Search.Outcome
import MixedInteger.Proofs.Solver.SingleColumn
import MixedInteger.Proofs.Search.Shown
import MixedInteger.Proofs.Continuous.Stored
import MixedInteger.Proofs.Model.Restoration
import MixedInteger.Proofs.Model.Tabulation
import MixedInteger.Proofs.Model.ColumnValues
import MixedInteger.Proofs.Model.LazyRows
import MixedInteger.Proofs.Model.Ending
import MixedInteger.Proofs.Model.Verdict
import MixedInteger.Proofs.Model.Memory
import MixedInteger.Proofs.Model.Identity
import MixedInteger.Proofs.Model.Certificates
import MixedInteger.Proofs.Search.Whole
import MixedInteger.Proofs.Model.CallbackFrame
import MixedInteger.Proofs.Model.Solve
import MixedInteger.Proofs.Model.Integral
import MixedInteger.Proofs.Model.CallbackSearch
import MixedInteger.Proofs.Model.LazyConstraints
import MixedInteger.Proofs.Model.ReportedBound
import MixedInteger.Proofs.Model.Atomicity
import MixedInteger.Proofs.Model.InnerProblem
import MixedInteger.Proofs.Model.Instruction
import MixedInteger.Proofs.Continuous.Finding
import MixedInteger.Proofs.Continuous.Recession
import MixedInteger.Proofs.Model.Agreement
import MixedInteger.Proofs.Search.Recording
import MixedInteger.Proofs.Search.Protocol
import MixedInteger.Proofs.Search.Followed
import MixedInteger.Proofs.Number.Valued
import MixedInteger.Proofs.Search.Lattice
import MixedInteger.Proofs.Search.Carried
import MixedInteger.Proofs.Search.Potential
import MixedInteger.Proofs.Search.Termination
import MixedInteger.Proofs.Continuous.Diagnosis
import MixedInteger.Proofs.Model.Repetition
import MixedInteger.Proofs.Model.PointValues
import MixedInteger.Proofs.Model.Refutation
import MixedInteger.Proofs.Problem.Program
import MixedInteger.Proofs.Continuous.Duals
import MixedInteger.Proofs.Continuous.Farkas
import MixedInteger.Proofs.Model.RowDuals
import MixedInteger.Proofs.Model.BoundDuals
import MixedInteger.Proofs.Continuous.Variants
import MixedInteger.Proofs.Model.ReturnCodes
import MixedInteger.Proofs.Model.CrossedBounds
import MixedInteger.Proofs.Model.Trouble
import MixedInteger.Proofs.Model.Boxes
import MixedInteger.Proofs.Model.Kinds
import MixedInteger.Proofs.Model.IntegerPoints
import MixedInteger.Proofs.Model.Questions
import MixedInteger.Proofs.Model.FiniteData
import MixedInteger.Proofs.Search.Settled
import MixedInteger.Proofs.Model.Conclusion
import MixedInteger.Proofs.Model.Feasibility
import MixedInteger.Proofs.Model.NormalForm
import MixedInteger.Proofs.Problem.Deletion
import MixedInteger.Proofs.Model.DeadIndices
import MixedInteger.Proofs.Parameter.Updates
import MixedInteger.Proofs.Formula.Parameters
import MixedInteger.Proofs.Job.Description
import MixedInteger.Proofs.Algebraic.Transfer
import MixedInteger.Proofs.Model.ObjectiveKind
import MixedInteger.Proofs.Job.Duals
import MixedInteger.Proofs.Model.Silence
import MixedInteger.Proofs.Formula.Calls
import MixedInteger.Proofs.Formula.Grammar
import MixedInteger.Proofs.Formula.Spelling
import MixedInteger.Proofs.Formula.Rendering
import MixedInteger.Proofs.Problem.Calls
import MixedInteger.Proofs.Search.NodeBounds
import MixedInteger.Proofs.Search.Activation
