import SourceSpans.Mark.Extent
import SourceSpans.Mark.Range
import SourceSpans.Tree.Unfolding

/-!
# Marking a tree

`mark` gives every node of a tree its range of tokens. The tree is visited once, children before
parents, with a cursor that only moves forward: the tokens of a node are looked for from where its
previous sibling ended.

A node without tokens has to wait for its place. It is handed on to its parent (`Claim.nothing`)
until a following sibling has tokens, before which it is put, or until an ancestor is done, after
which it is put.
-/

namespace SourceSpans

/-- Why a tree cannot be marked. -/
inductive MarkError
  /-- The tokens of a literal are not there. -/
  | tokensExhausted (node : NodeId) (kind : String) (wanted : Literal)
  | noTokens
  deriving DecidableEq, Repr

namespace MarkError

/-- What went wrong. -/
def message : MarkError → String
  | tokensExhausted node kind wanted =>
      "ran out of tokens looking for " ++ wanted.describe ++ " of " ++ kind ++ " node "
        ++ node.describe
  | noTokens => "cannot mark a tree against an empty token list"

end MarkError

/-- The state of marking. -/
structure Pass where
  /-- The first token that has not been claimed. -/
  cursor : Nat
  /-- The ranges given so far. -/
  ranges : RangeTable
  /-- The nodes entered so far, the last one first. -/
  entered : List NodeId
  deriving DecidableEq, Repr

/-- Where marking stopped: what went wrong, and the nodes that had been entered, last one first. -/
structure MarkFailure where
  error : MarkError
  entered : List NodeId
  deriving DecidableEq, Repr

/-- What a node that has been visited hands to its parent. -/
inductive Claim
  /-- The node has these tokens. -/
  | tokens (span : Span)
  /-- Neither the node nor any node under it has tokens; all of them wait for a place. -/
  | nothing (waiting : List NodeId)
  deriving DecidableEq, Repr

/-- A node that is being visited. -/
structure Frame where
  /-- The cursor when the node was entered. The node takes no token before it. -/
  floor : Nat
  /-- The tokens that introduce the node. -/
  head? : Option Span
  /-- Whether the `intro` of its rule has been found. -/
  introduced : Bool
  /-- The spans of the children with tokens, in order. -/
  spans : List Span
  /-- The nodes below that wait for the next child with tokens. -/
  waiting : List NodeId
  deriving DecidableEq, Repr

namespace Pass

/-- Before the root. -/
def initial : Pass := ⟨0, RangeTable.empty, []⟩

/-- Give nodes a range. -/
def give (s : Pass) (ids : List NodeId) (r : TokenRange) : Pass :=
  { s with ranges := s.ranges.insertAll ids r }

end Pass

namespace Frame

/-- Take what a child hands on. -/
def adopt (f : Frame) (claim : Claim) (s : Pass) : Frame × Pass :=
  match claim with
  | .tokens span =>
      ({ f with spans := f.spans ++ [span], waiting := [] },
        s.give f.waiting (TokenRange.emptyBefore span.first))
  | .nothing waiting => ({ f with waiting := f.waiting ++ waiting }, s)

/-- The least span of the head and the children, if there are any. -/
def hull? (f : Frame) : Option Span :=
  match f.head?.toList ++ f.spans with
  | [] => none
  | span :: rest => some (rest.foldl Span.union span)

end Frame

namespace Marker

variable (m : Marker)

/-- Enter a node and claim the head of its rule. A head that is also an `intro` counts as both. The
search for a head ends at a bracket opened before `parentFloor`. -/
def enter (id : NodeId) (rule? : Option Rule) (parentFloor : Nat) (s : Pass) : Frame × Pass :=
  let head? := rule?.bind fun r => m.search? r.head s.cursor parentFloor
  let introduced := match rule?, head? with
    | some r, some head => r.intro.any fun ps => m.forwardAt? ps head.first == some head.last
    | _, _ => false
  ({ floor := s.cursor, head?, introduced, spans := [], waiting := [] },
    { s with
      cursor := match head? with
        | some head => head.last + 1
        | none => s.cursor
      entered := id :: s.entered })

/-- The `intro` of a rule, if it comes next after the cursor. -/
def introAt? (r : Rule) (cursor : Nat) : Option Span :=
  (findUp (m.source.holdsAt fun t => !t.kind.isLayout) cursor m.size).bind fun i =>
    (m.anyForwardAt? r.intro i).map fun last => ⟨i, last⟩

/-- Claim the `intro` of a node's rule if it comes next. This is tried before each child until it is
found, so that it may follow children that stand in front. -/
def introduce (rule? : Option Rule) (f : Frame) (s : Pass) : Frame × Pass :=
  if f.introduced then (f, s)
  else match rule?.bind fun r => m.introAt? r s.cursor with
    | none => (f, s)
    | some span =>
        ({ f with
            introduced := true
            head? := some (match f.head? with
              | some head => head.union span
              | none => span) },
          { s with cursor := span.last + 1 })

/-- The span of a node without a head whose children have no tokens, if it has one. -/
def leaf? (literal? : Option Literal) (rule? : Option Rule) (parentFloor cursor : Nat) :
    Except Literal (Option Span) :=
  match literal? with
  | some literal =>
      match m.findLiteral? literal cursor with
      | some span => .ok (some span)
      | none => .error literal
  | none => .ok (rule?.bind fun r => m.search? r.empty cursor parentFloor)

/-- Leave a node all of whose children have been visited. -/
def leave (id : NodeId) (kind : String) (literal? : Option Literal) (rule? : Option Rule)
    (parentFloor : Nat) (f : Frame) (s : Pass) : Except MarkFailure (Claim × Pass) :=
  match f.hull?.elim (m.leaf? literal? rule? parentFloor s.cursor) fun span => .ok (some span) with
  | .error wanted => .error ⟨.tokensExhausted id kind wanted, s.entered⟩
  | .ok none => .ok (.nothing (f.waiting ++ [id]), s)
  | .ok (some span) =>
      let span := m.extend rule? f.floor f.spans span
      let s := s.give [id] (TokenRange.ofTokens span.first span.last)
      let s := s.give f.waiting (TokenRange.emptyAfter span.last)
      .ok (.tokens span, { s with cursor := max s.cursor (span.last + 1) })

mutual

/-- Visit a node whose parent began at `parentFloor`, and everything under it. -/
def visit (parentFloor : Nat) : SyntaxTree → Pass → Except MarkFailure (Claim × Pass)
  | .node id kind literal? children, s => do
      let rule? := m.policy.rule? kind
      let (f, s) := m.enter id rule? parentFloor s
      let (f, s) ← visitAll rule? children f s
      m.leave id kind literal? rule? parentFloor f s

/-- Visit the children of a node that are left. -/
def visitAll (rule? : Option Rule) : List SyntaxTree → Frame → Pass →
    Except MarkFailure (Frame × Pass)
  | [], f, s => .ok (f, s)
  | child :: rest, f, s => do
      let (f, s) := m.introduce rule? f s
      let (claim, s) ← visit f.floor child s
      let (f, s) := f.adopt claim s
      visitAll rule? rest f s

end

/-- Mark a tree. If no node has tokens all of them are put before the token at the cursor. -/
def markTree (tree : SyntaxTree) : Except MarkFailure Pass :=
  if m.size = 0 then .error ⟨.noTokens, []⟩
  else do
    let (claim, s) ← m.visit 0 tree Pass.initial
    match claim with
    | .tokens _ => return s
    | .nothing waiting =>
        return s.give waiting (TokenRange.emptyBefore (min s.cursor (m.size - 1)))

end Marker

/-- The ranges of the nodes under a root among the tokens of a source. -/
def mark (source : Source) (policy : PolicyTable) (g : NodeTable) (root : NodeId) :
    Except MarkError RangeTable :=
  match (Marker.new source policy).markTree (g.unfolding root) with
  | .ok s => .ok s.ranges
  | .error failure => .error failure.error

end SourceSpans
