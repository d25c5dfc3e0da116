import SourceSpans.Mark.Pass
import SourceSpans.Source.Navigation

/-!
# Asking about marked nodes

An annotated source is a source with the ranges of the nodes of a tree: usually the tree marked
against this source, but any table will do. It answers where a node stands, in tokens, in bytes and
in lines, and gives its text.
-/

namespace SourceSpans

/-- Why a question about a node has no answer. -/
inductive SpanError
  | notMarked (node : NodeId)
  /-- The source has no tokens at all. -/
  | noTokens
  /-- An end of the node lies inside a character. -/
  | insideCharacter (offset : Nat)
  deriving DecidableEq, Repr

namespace SpanError

/-- What went wrong. -/
def message : SpanError → String
  | notMarked node =>
      "node " ++ node.describe ++ " was not marked; it does not belong to the marked tree"
  | noTokens => "the source has no tokens"
  | insideCharacter offset => "byte offset " ++ toString offset ++ " lies inside a character"

end SpanError

/-- A source with the ranges of nodes. -/
structure Annotated where
  source : Source
  ranges : RangeTable
  deriving DecidableEq, Repr

namespace Annotated

variable (a : Annotated)

/-- The range of a node. -/
def range (id : NodeId) : Except SpanError TokenRange :=
  match a.ranges.get? id with
  | some r => .ok r
  | none => .error (.notMarked id)

/-- A token of the source; the last one for an index past the end. -/
def tokenAt (index : Nat) : Except SpanError Token :=
  match a.source.tokens[min index (a.source.size - 1)]? with
  | some t => .ok t
  | none => .error .noTokens

/-- The first token of a node, or the token it stands at. -/
def firstToken (id : NodeId) : Except SpanError Token := do
  a.tokenAt (← a.range id).first

/-- The last token of a node, or the token it stands at. -/
def lastToken (id : NodeId) : Except SpanError Token := do
  a.tokenAt (← a.range id).last

/-- The tokens of a node. -/
def tokens (id : NodeId) (includeExtra : Bool) : Except SpanError (List Token) := do
  let r ← a.range id
  if r.isEmpty then return []
  else return a.source.between (← a.tokenAt r.first) (← a.tokenAt r.last) includeExtra

/-- The byte offsets of the two ends of a node. -/
def textRange (id : NodeId) : Except SpanError (Nat × Nat) := do
  return (← a.range id).textRange a.source

/-- The text of a node; empty if its ends are no range of the text. -/
def text (id : NodeId) : Except SpanError Text := do
  let (start, stop) ← a.textRange id
  return (Text.slice? a.source.text start stop).getD []

/-- The position of an offset. -/
def positionAt (offset : Nat) : Except SpanError Position :=
  match Text.position? a.source.text offset with
  | some p => .ok p
  | none => .error (.insideCharacter offset)

/-- The positions of the two ends of a node. -/
def textPositions (id : NodeId) : Except SpanError (Position × Position) := do
  let (start, stop) ← a.textRange id
  return (← a.positionAt start, ← a.positionAt stop)

end Annotated

end SourceSpans
