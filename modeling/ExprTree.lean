import ExprTree.Fault
import ExprTree.Action
import ExprTree.Span
import ExprTree.Name
import ExprTree.Node.Id
import ExprTree.Node.Flags
import ExprTree.Node.Kind
import ExprTree.Node.Listing
import ExprTree.Arena.Basic
import ExprTree.Arena.Query
import ExprTree.Arena.Spelling
import ExprTree.Arena.Build
import ExprTree.Arena.Strip
import ExprTree.Arena.Offset
import ExprTree.Diagnostic.Code
import ExprTree.Diagnostic.Basic
import ExprTree.Diagnostic.Queue
import ExprTree.Nesting
import ExprTree.Context
import ExprTree.Use.Read
import ExprTree.Use.Classify
import ExprTree.Discard.Escape
import ExprTree.Discard.Site
import ExprTree.Discard.Ignored
import ExprTree.Discard.Void
import ExprTree.Walk.Children
import ExprTree.Walk.Basic
import ExprTree.Proofs.Wlp
import ExprTree.Proofs.Evolution
import ExprTree.Proofs.DerivedFlags
import ExprTree.Proofs.Typing
import ExprTree.Proofs.Reads
import ExprTree.Proofs.Warnings
import ExprTree.Proofs.Reading
import ExprTree.Proofs.Uses
import ExprTree.Proofs.Reduction
import ExprTree.Proofs.ExactEffects
import ExprTree.Proofs.VoidEffects
import ExprTree.Proofs.Consistency
import ExprTree.Proofs.Builders
import ExprTree.Proofs.Analysis
import ExprTree.Proofs.Trace
import ExprTree.Proofs.Promises
import ExprTree.Proofs.VoidTraces
import ExprTree.Proofs.Settled
import ExprTree.Proofs.Settling
import ExprTree.Proofs.SettledUses
import ExprTree.Proofs.VoidAgain
import ExprTree.Proofs.Runs
import ExprTree.Proofs.Footprint
import ExprTree.Proofs.Confinement
import ExprTree.Proofs.Intact
import ExprTree.Proofs.VoidConfinement
import ExprTree.Proofs.Closed
import ExprTree.Proofs.Closedness
import ExprTree.Proofs.Questions
import ExprTree.Proofs.Returning
import ExprTree.Proofs.VoidReturns
import ExprTree.Proofs.Coupling
import ExprTree.Proofs.TwinLaws
import ExprTree.Proofs.VoidAgreement
import ExprTree.Proofs.Walks
import ExprTree.Proofs.WalkLaws
import ExprTree.Proofs.Balance
import ExprTree.Proofs.WalkSearch
import ExprTree.Proofs.WalkPreorder
import ExprTree.Proofs.WalkEnds
import ExprTree.Proofs.WalkRoom
import ExprTree.Proofs.WalkLimits
import ExprTree.Proofs.WalkFirsts
import ExprTree.Proofs.QueueHistory
import ExprTree.Proofs.QueueBatches
import ExprTree.Proofs.Appends
import ExprTree.Proofs.QueuePairs
import ExprTree.Proofs.Rewording
import ExprTree.Proofs.SiteReports
import ExprTree.Proofs.ErrorPaths
import ExprTree.Proofs.VoidErrors
import ExprTree.Proofs.ErrorReports
import ExprTree.Proofs.VoidErrorReports
import ExprTree.Proofs.Resting
import ExprTree.Proofs.StateReports
import ExprTree.Proofs.VariableReports
import ExprTree.Proofs.SpanSources
import ExprTree.Proofs.Suppression
import ExprTree.Proofs.Operations
import ExprTree.Proofs.Rejections
import ExprTree.Proofs.ReadPaths
import ExprTree.Proofs.ReadMarks
import ExprTree.Proofs.NormalForms
import ExprTree.Proofs.Normalizing
import ExprTree.Proofs.UseAgain
import ExprTree.Proofs.Offsets
import ExprTree.Proofs.Callees
import ExprTree.Proofs.IgnoredResults
import ExprTree.Proofs.ReadHeights
import ExprTree.Proofs.ReadRoom
import ExprTree.Proofs.UseRoom
import ExprTree.Proofs.VoidRoom
import ExprTree.Proofs.Quoting
import ExprTree.Proofs.Interning
import ExprTree.Proofs.StoredLists
import ExprTree.Proofs.Variants
import ExprTree.Proofs.SpanMerge
