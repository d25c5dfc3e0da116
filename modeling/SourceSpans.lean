import SourceSpans.Text.Basic
import SourceSpans.Text.Position
import SourceSpans.Text.Identifier
import SourceSpans.Text.Quoted
import SourceSpans.Text.Blank
import SourceSpans.Token.Lexeme
import SourceSpans.Token.Layout
import SourceSpans.Token.Merge
import SourceSpans.Source.Basic
import SourceSpans.Source.Navigation
import SourceSpans.Json.Basic
import SourceSpans.Json.Reader
import SourceSpans.Edit.Digest
import SourceSpans.Mark.Range
import SourceSpans.Edit.Basic
import SourceSpans.Edit.Replace
import SourceSpans.Tree.Unfolding
import SourceSpans.Tree.Walk
import SourceSpans.PythonAst.Basic
import SourceSpans.Policy.Pattern
import SourceSpans.Policy.Table
import SourceSpans.Policy.PythonAst
import SourceSpans.Policy.TreeSitterPython
import SourceSpans.Mark.Brackets
import SourceSpans.Mark.Search
import SourceSpans.Mark.Extent
import SourceSpans.Mark.Pass
import SourceSpans.Mark.Annotated
import SourceSpans.Mark.Verify
import SourceSpans.Number.Digits
import SourceSpans.Number.Double
import SourceSpans.Files.Tree
import SourceSpans.Toml.Document
import SourceSpans.Policy.Reading
import SourceSpans.Proofs.Mark.Bounds
import SourceSpans.Proofs.Mark.Steps
import SourceSpans.Proofs.Tree.FirstVisit
import SourceSpans.Proofs.Sequences
import SourceSpans.Proofs.Tree.DepthFirst
import SourceSpans.Proofs.Mark.Coverage
import SourceSpans.Proofs.Mark.Edges
import SourceSpans.Proofs.Mark.Nesting
import SourceSpans.Proofs.Mark.Verification
import SourceSpans.Proofs.Edit.Acceptance
import SourceSpans.Proofs.Source.Identifiers
import SourceSpans.Proofs.Token.EitherLineEnd
import SourceSpans.Proofs.Edit.Ordering
import SourceSpans.Proofs.Edit.OneByOne
import SourceSpans.Proofs.Edit.Rewriting
import SourceSpans.Proofs.Condensed.Brackets
import SourceSpans.Proofs.Condensed.Literals
import SourceSpans.Proofs.Condensed.Extent
import SourceSpans.Proofs.Condensed.Marking
import SourceSpans.Proofs.Condensed.Comments
import SourceSpans.Proofs.Token.Lossless
import SourceSpans.Proofs.Token.LogicalLines
import SourceSpans.Proofs.Token.Grammar
import SourceSpans.Proofs.Token.Offside
import SourceSpans.Proofs.Token.Rejoining
import SourceSpans.Proofs.Mark.Pairing
import SourceSpans.Proofs.Text.Positions
import SourceSpans.Proofs.Mark.Closure
import SourceSpans.Proofs.Mark.Visits
import SourceSpans.Proofs.Mark.TextRuns
import SourceSpans.Proofs.Mark.Leftmost
import SourceSpans.Proofs.Mark.Anchoring
import SourceSpans.Proofs.Token.Normalizing
import SourceSpans.Proofs.Source.Lookup
import SourceSpans.Proofs.Source.Navigation
import SourceSpans.Proofs.Tree.Trees
import SourceSpans.Proofs.Mark.TreeCheck
import SourceSpans.Proofs.PythonAst.Enumeration
import SourceSpans.Proofs.Token.Strings
import SourceSpans.Proofs.Policy.Accepted
import SourceSpans.Proofs.Mark.ForwardMatches
import SourceSpans.Proofs.Mark.Wrapping
