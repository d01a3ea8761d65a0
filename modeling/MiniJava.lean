import MiniJava.Document.Reader
import MiniJava.Document.Writer
import MiniJava.Document.Lowering
import MiniJava.Name.Suggestion
import MiniJava.Name.Table
import MiniJava.Class.Reference
import MiniJava.Check.Report
import MiniJava.Check.Declarations
import MiniJava.Check.Overrides
import MiniJava.Check.Analysis
import MiniJava.Layout.Object
import MiniJava.Codegen.Generate
import MiniJava.Compile
import MiniJava.Timing
import MiniJava.Identity
import MiniJava.Document.Names
import MiniJava.Main
import MiniJava.Proofs.Findings
import MiniJava.Proofs.Notes
import MiniJava.Proofs.Class.WellFormed
import MiniJava.Proofs.Hierarchy
import MiniJava.Proofs.Inheritance
import MiniJava.Proofs.Declarations
import MiniJava.Proofs.Overrides
import MiniJava.Proofs.Layout.Slots
import MiniJava.Proofs.Layout.Counters
import MiniJava.Proofs.Layout.Dispatch
import MiniJava.Proofs.Typing.Lookup
import MiniJava.Proofs.Typing.Reported
import MiniJava.Proofs.Typing.Expression
import MiniJava.Proofs.Typing.Judgment
import MiniJava.Proofs.Typing.Statement
import MiniJava.Proofs.Typing.Program
import MiniJava.Proofs.Accepted
import MiniJava.Proofs.Dispatch
import MiniJava.Proofs.Typing.Soundness
import MiniJava.Proofs.Codegen.Checked
import MiniJava.Proofs.Codegen.Compositional
import MiniJava.Proofs.Codegen.Labels
import MiniJava.Proofs.IR.Machine
import MiniJava.Proofs.Scalar.Semantics
import MiniJava.Proofs.Scalar.Expression
import MiniJava.Proofs.Scalar.Statement
import MiniJava.Proofs.Scalar.Body
import MiniJava.Proofs.Scalar.Main
import MiniJava.Proofs.IR.Graph
import MiniJava.Proofs.IR.Dominance
import MiniJava.Proofs.IR.Typing
import MiniJava.Proofs.IR.Region
import MiniJava.Proofs.IR.Structured
import MiniJava.Proofs.Codegen.Region
import MiniJava.Proofs.Codegen.Body
import MiniJava.Proofs.Codegen.Structured
import MiniJava.Proofs.Codegen.Consistent
import MiniJava.Proofs.Codegen.Arrays
import MiniJava.Proofs.Codegen.ArraySafety
import MiniJava.Proofs.Codegen.ArrayElements
import MiniJava.Proofs.Limits.Compile
import MiniJava.Proofs.Declared.Faithful
import MiniJava.Proofs.Objects
import MiniJava.Proofs.Truncation
import MiniJava.Proofs.Closed
import MiniJava.Proofs.RoundTrip
import MiniJava.Proofs.Spellings
import MiniJava.Proofs.Declared.Overrides
import MiniJava.Proofs.MethodLookup
import MiniJava.Proofs.FileSystem
import MiniJava.Proofs.Path
import MiniJava.Proofs.CommandLine
import MiniJava.Proofs.Lines.Syntax
import MiniJava.Proofs.Lines.Table
import MiniJava.Proofs.Lines.Declarations
import MiniJava.Proofs.Lines.Expression
import MiniJava.Proofs.Lines.Hierarchy
import MiniJava.Proofs.Lines.Body
import MiniJava.Proofs.Lines.Code
import MiniJava.Proofs.Lines.Compile
import MiniJava.Proofs.Layout.Packed
import MiniJava.Proofs.Compact
import MiniJava.Proofs.Steps.Order
import MiniJava.Proofs.Steps.Skeleton
import MiniJava.Proofs.Recovery
import MiniJava.Proofs.Steps.Uses
import MiniJava.Proofs.Steps.Marks
import MiniJava.Proofs.Initialization
import MiniJava.Proofs.Names.Occurrences
import MiniJava.Proofs.Names.Numbered
import MiniJava.Proofs.Names.Lookups
import MiniJava.Proofs.Names.Declared
import MiniJava.Proofs.Names.Program
import MiniJava.Proofs.Suggestions
import MiniJava.Proofs.Layout.Repeated
import MiniJava.Proofs.Layout.Starts
import MiniJava.Proofs.SharedCounter
import MiniJava.Proofs.Grouping.Syntax
import MiniJava.Proofs.Grouping.Check
import MiniJava.Proofs.Grouping.Code
import MiniJava.Proofs.Grouping
import MiniJava.Proofs.Reorder.Table
import MiniJava.Proofs.Reorder.Program
import MiniJava.Proofs.Reorder.Typing
import MiniJava.Proofs.Reorder.Bodies
import MiniJava.Proofs.Reorder.Pass
import MiniJava.Proofs.Reorder.Layout
import MiniJava.Proofs.Reorder
import MiniJava.Proofs.Names.Edits
import MiniJava.Proofs.Names.Closest
import MiniJava.Proofs.Class.Reached
import MiniJava.Proofs.Class.Raised
import MiniJava.Proofs.Frames
import MiniJava.Proofs.Traversal
import MiniJava.Proofs.Layout.Unseen
import MiniJava.Proofs.Codegen.Reads
import MiniJava.Proofs.Strict.Table
import MiniJava.Proofs.Strict.Bodies
import MiniJava.Proofs.Strict
import MiniJava.Proofs.Timing
