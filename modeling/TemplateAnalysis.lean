import TemplateAnalysis.Analysis
import TemplateAnalysis.ControlFlow
import TemplateAnalysis.Expr.Basic
import TemplateAnalysis.Expr.Eval
import TemplateAnalysis.Expr.Replace
import TemplateAnalysis.Expr.Simplify
import TemplateAnalysis.Expr.Text
import TemplateAnalysis.Fixpoint
import TemplateAnalysis.Name
import TemplateAnalysis.NameMap
import TemplateAnalysis.Odometer
import TemplateAnalysis.Program
import TemplateAnalysis.Settings
import TemplateAnalysis.Solver.Enumerative
import TemplateAnalysis.Solver.Scripted
import TemplateAnalysis.Solver.Session
import TemplateAnalysis.Solver.Supply
import TemplateAnalysis.Ssa.Basic
import TemplateAnalysis.Ssa.Build
import TemplateAnalysis.Ssa.Node
import TemplateAnalysis.Ssa.Reaching
import TemplateAnalysis.Store
import TemplateAnalysis.Symbol
import TemplateAnalysis.Template.Domain
import TemplateAnalysis.Template.Observation
import TemplateAnalysis.Template.Predicates
import TemplateAnalysis.Template.Ranking
import TemplateAnalysis.Template.Row
import TemplateAnalysis.Unwinding
import TemplateAnalysis.Proofs.Advance
import TemplateAnalysis.Proofs.Analysis
import TemplateAnalysis.Proofs.Answers
import TemplateAnalysis.Proofs.Calls
import TemplateAnalysis.Proofs.ControlFlow
import TemplateAnalysis.Proofs.Effort
import TemplateAnalysis.Proofs.Enumeration.Backtracking
import TemplateAnalysis.Proofs.Enumeration.Dependencies
import TemplateAnalysis.Proofs.Enumeration.Problems
import TemplateAnalysis.Proofs.Enumeration.Propagation
import TemplateAnalysis.Proofs.Enumeration.Search
import TemplateAnalysis.Proofs.Enumeration.Verdicts
import TemplateAnalysis.Proofs.Execution
import TemplateAnalysis.Proofs.Expr.Mentions
import TemplateAnalysis.Proofs.Expr.Outcomes
import TemplateAnalysis.Proofs.Expr.Reading
import TemplateAnalysis.Proofs.Expr.Refinement
import TemplateAnalysis.Proofs.Expr.Simplified
import TemplateAnalysis.Proofs.Expr.Sorted
import TemplateAnalysis.Proofs.Expr.Substitution
import TemplateAnalysis.Proofs.Expr.Terms
import TemplateAnalysis.Proofs.Fixpoint
import TemplateAnalysis.Proofs.Invariants
import TemplateAnalysis.Proofs.Names
import TemplateAnalysis.Proofs.Nesting
import TemplateAnalysis.Proofs.Preconditions
import TemplateAnalysis.Proofs.Recovery
import TemplateAnalysis.Proofs.SingleEntry
import TemplateAnalysis.Proofs.Solver.Certified
import TemplateAnalysis.Proofs.Solver.Deciding
import TemplateAnalysis.Proofs.Solver.Restoration
import TemplateAnalysis.Proofs.Solver.Scopes
import TemplateAnalysis.Proofs.Solver.Sessions
import TemplateAnalysis.Proofs.Ssa.Advancing
import TemplateAnalysis.Proofs.Ssa.Definitional
import TemplateAnalysis.Proofs.Ssa.Equations
import TemplateAnalysis.Proofs.Ssa.Exactness
import TemplateAnalysis.Proofs.Ssa.Extension
import TemplateAnalysis.Proofs.Ssa.Following
import TemplateAnalysis.Proofs.Ssa.Frame
import TemplateAnalysis.Proofs.Ssa.LoopPasses
import TemplateAnalysis.Proofs.Ssa.Models
import TemplateAnalysis.Proofs.Ssa.OverApproximation
import TemplateAnalysis.Proofs.Ssa.Reaching
import TemplateAnalysis.Proofs.Ssa.Reads
import TemplateAnalysis.Proofs.Ssa.RoundTrip
import TemplateAnalysis.Proofs.Ssa.Transfer
import TemplateAnalysis.Proofs.Status
import TemplateAnalysis.Proofs.Store.Loading
import TemplateAnalysis.Proofs.Store.Operations
import TemplateAnalysis.Proofs.Store.Sessions
import TemplateAnalysis.Proofs.Template.Arrivals
import TemplateAnalysis.Proofs.Template.Candidates
import TemplateAnalysis.Proofs.Template.Closure
import TemplateAnalysis.Proofs.Template.Coefficients
import TemplateAnalysis.Proofs.Template.Counterexamples
import TemplateAnalysis.Proofs.Template.Descent
import TemplateAnalysis.Proofs.Template.Observations
import TemplateAnalysis.Proofs.Template.Projection
import TemplateAnalysis.Proofs.Template.Ranking
import TemplateAnalysis.Proofs.Template.Refutation
import TemplateAnalysis.Proofs.Template.Reversal
import TemplateAnalysis.Proofs.Template.Selection
import TemplateAnalysis.Proofs.Termination
import TemplateAnalysis.Proofs.Unwinding.Collisions
import TemplateAnalysis.Proofs.Unwinding.Copies
import TemplateAnalysis.Proofs.Unwinding.Guards
import TemplateAnalysis.Proofs.Unwinding.Introduced
import TemplateAnalysis.Proofs.Unwinding.Passes
import TemplateAnalysis.Proofs.Unwinding.Resolution
import TemplateAnalysis.Proofs.Unwinding.Restarts
import TemplateAnalysis.Proofs.Unwinding.Series
import TemplateAnalysis.Proofs.Unwinding.SingleAssignment
import TemplateAnalysis.Proofs.Unwinding.Suffixes
