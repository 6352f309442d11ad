import FluentBuilder.Builder.Printer
import FluentBuilder.Builder.Spec
import FluentBuilder.CommandLine.Files
import FluentBuilder.CommandLine.Run
import FluentBuilder.CommandLine.Tools
import FluentBuilder.Data.Printer
import FluentBuilder.Data.Reader
import FluentBuilder.Data.Value
import FluentBuilder.Decimal.Basic
import FluentBuilder.Decimal.Binary
import FluentBuilder.Decimal.Integer
import FluentBuilder.Decimal.Shortest
import FluentBuilder.Default.Inference
import FluentBuilder.Default.Missing
import FluentBuilder.Default.Rules
import FluentBuilder.Default.Tracking
import FluentBuilder.Delegation
import FluentBuilder.Diagnostic
import FluentBuilder.Expansion
import FluentBuilder.Frontends
import FluentBuilder.Location
import FluentBuilder.Path
import FluentBuilder.Proofs.Builder.Embedding
import FluentBuilder.Proofs.Builder.Fields
import FluentBuilder.Proofs.Builder.Listing
import FluentBuilder.Proofs.Builder.Reading
import FluentBuilder.Proofs.Builder.Scoping
import FluentBuilder.Proofs.CommandLine.ExitCodes
import FluentBuilder.Proofs.CommandLine.Inspection
import FluentBuilder.Proofs.Default.Delegates
import FluentBuilder.Proofs.Default.Extension
import FluentBuilder.Proofs.Default.Placeholders
import FluentBuilder.Proofs.Default.Rules
import FluentBuilder.Proofs.Default.Undefaultable
import FluentBuilder.Proofs.Delegation.Enumeration
import FluentBuilder.Proofs.Delegation.Invariance
import FluentBuilder.Proofs.Delegation.Qualified
import FluentBuilder.Proofs.Delegation.Rejection
import FluentBuilder.Proofs.Delegation.Walk
import FluentBuilder.Proofs.Outcomes
import FluentBuilder.Proofs.Settings.Reloading
import FluentBuilder.Proofs.Source.Answers
import FluentBuilder.Proofs.Source.Bindings
import FluentBuilder.Proofs.Source.Collisions
import FluentBuilder.Proofs.Source.Locations
import FluentBuilder.Proofs.Source.Markers
import FluentBuilder.Proofs.Source.Outlines
import FluentBuilder.Proofs.Source.Overrides
import FluentBuilder.Proofs.Source.Properties
import FluentBuilder.Proofs.Source.Ranges
import FluentBuilder.Proofs.Source.Splicing
import FluentBuilder.Proofs.Source.Stripping
import FluentBuilder.Proofs.Source.Widening
import FluentBuilder.Proofs.Syntax.Annotations
import FluentBuilder.Proofs.Syntax.Arguments
import FluentBuilder.Proofs.Syntax.Generics
import FluentBuilder.Proofs.Syntax.GroupEnds
import FluentBuilder.Proofs.Syntax.HeadItems
import FluentBuilder.Proofs.Syntax.Heads
import FluentBuilder.Proofs.Syntax.Joining
import FluentBuilder.Proofs.Syntax.Nesting
import FluentBuilder.Proofs.Syntax.Preorder
import FluentBuilder.Proofs.Syntax.TriviaRuns
import FluentBuilder.Proofs.Text.Decoding
import FluentBuilder.Proofs.Text.Encoding
import FluentBuilder.Proofs.Text.Indenting
import FluentBuilder.Proofs.Text.Sorted
import FluentBuilder.Proofs.Text.Trimming
import FluentBuilder.Proofs.TypeExpr.Acceptance
import FluentBuilder.Proofs.TypeExpr.Adequacy
import FluentBuilder.Proofs.TypeExpr.Balance
import FluentBuilder.Proofs.TypeExpr.Cuts
import FluentBuilder.Proofs.TypeExpr.Derivation
import FluentBuilder.Proofs.TypeExpr.Grammar
import FluentBuilder.Proofs.TypeExpr.Lexing
import FluentBuilder.Proofs.TypeExpr.Locality
import FluentBuilder.Proofs.TypeExpr.Names
import FluentBuilder.Proofs.TypeExpr.Parts
import FluentBuilder.Proofs.TypeExpr.Range
import FluentBuilder.Proofs.TypeExpr.Recovery
import FluentBuilder.Proofs.TypeExpr.Rendering
import FluentBuilder.Proofs.TypeExpr.RoundTrip
import FluentBuilder.Proofs.TypeExpr.Slices
import FluentBuilder.Proofs.TypeExpr.Spacing
import FluentBuilder.Proofs.TypeExpr.Stability
import FluentBuilder.Record
import FluentBuilder.Settings
import FluentBuilder.Source.Edit
import FluentBuilder.Source.Expanded
import FluentBuilder.Source.Outline
import FluentBuilder.Source.Text
import FluentBuilder.Source.Warning
import FluentBuilder.Syntax.Annotation
import FluentBuilder.Syntax.Group
import FluentBuilder.Syntax.Head
import FluentBuilder.Syntax.Pieces
import FluentBuilder.Syntax.Place
import FluentBuilder.Syntax.Tree
import FluentBuilder.Syntax.TreeData
import FluentBuilder.Syntax.Trivia
import FluentBuilder.Text.Cased
import FluentBuilder.Text.Category
import FluentBuilder.Text.Class
import FluentBuilder.Text.Lines
import FluentBuilder.Text.LowerCase
import FluentBuilder.Text.Quoted
import FluentBuilder.Text.Sorted
import FluentBuilder.Text.Utf8
import FluentBuilder.Text.Word
import FluentBuilder.TypeExpr.Basic
import FluentBuilder.TypeExpr.Printer
import FluentBuilder.TypeExpr.Reader
import FluentBuilder.TypeExpr.SyntaxError
import FluentBuilder.TypeExpr.Token
