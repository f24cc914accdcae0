import TypedErrors.Code.Node
import TypedErrors.Exception.Backtrace
import TypedErrors.Exception.Block
import TypedErrors.Main
import TypedErrors.Proofs.Generation.Returns
import TypedErrors.Proofs.Attribute.Rendering
import TypedErrors.Proofs.Attribute.Marks
import TypedErrors.Proofs.Attribute.ByName
import TypedErrors.Proofs.Description.Format
import TypedErrors.Proofs.Generation.Bound
import TypedErrors.Proofs.Generation.Sources
import TypedErrors.Proofs.Execution.Contexts
import TypedErrors.Proofs.Execution.Namespace
import TypedErrors.Proofs.Execution.Loaded
import TypedErrors.Proofs.ErrorType.Described
import TypedErrors.Proofs.ErrorType.Names
import TypedErrors.Proofs.ErrorType.WellFormed
import TypedErrors.Proofs.Execution.Match
import TypedErrors.Proofs.Execution.Reach
import TypedErrors.Proofs.Execution.Dispatch
import TypedErrors.Proofs.Execution.Classify
import TypedErrors.Proofs.Execution.Classified
import TypedErrors.Proofs.Execution.Displayed
import TypedErrors.Proofs.Execution.Captured
import TypedErrors.Proofs.Source.RoundTrip
import TypedErrors.Proofs.ErrorType.Sources
import TypedErrors.Proofs.ErrorType.EntriesRead
import TypedErrors.Proofs.Attribute.Alike
import TypedErrors.Proofs.ErrorType.Alike
import TypedErrors.Proofs.ErrorType.Rearranged
import TypedErrors.Proofs.Source.Located
import TypedErrors.Proofs.Generation.Reports
import TypedErrors.Proofs.Source.Scope
import TypedErrors.Proofs.Generation.Aliases
import TypedErrors.Proofs.Description.Quoted
import TypedErrors.Proofs.Source.Insertion
import TypedErrors.Proofs.Description.Numbering
import TypedErrors.Proofs.Exception.Nested
import TypedErrors.Proofs.Code.Readable
import TypedErrors.Proofs.FileSystem.Change
import TypedErrors.Proofs.CommandLine.Build
import TypedErrors.Proofs.Attribute.Blocks
import TypedErrors.Proofs.Attribute.Forms
import TypedErrors.Proofs.Attribute.Spans
import TypedErrors.Proofs.Attribute.Refusal
import TypedErrors.Proofs.Attribute.Required
import TypedErrors.Proofs.Code.Documentation
import TypedErrors.Proofs.Generation.Namespace
import TypedErrors.Proofs.Generation.Copies
import TypedErrors.Proofs.Text.SnakeCase
import TypedErrors.Proofs.Text.Similar
import TypedErrors.Proofs.Code.Renaming
import TypedErrors.Proofs.Code.Suites
import TypedErrors.Proofs.Manifest.Accepted
import TypedErrors.Proofs.Manifest.Places
import TypedErrors.Proofs.Source.Spans
import TypedErrors.Proofs.Manifest.NodeCount
import TypedErrors.Proofs.Source.Retyped
