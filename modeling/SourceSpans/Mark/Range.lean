import SourceSpans.Source.Basic
import SourceSpans.Tree.Basic

/-!
# Token ranges

What a node covers is told by the first and the last of its tokens. A node that owns no token has
an empty range, which stands at an edge of a neighbouring token. A range is read against the
tokens of a source; an index past the last token stands for the end of the text.
-/

namespace SourceSpans

/-- How a range stands to its tokens. -/
inductive Anchor
  /-- The range holds the tokens. -/
  | tokens
  /-- The range is empty and lies where the first token starts. -/
  | before
  /-- The range is empty and lies where the first token stops. -/
  | after
  deriving DecidableEq, Repr

/-- The tokens of a node, or the place of a node without tokens. -/
structure TokenRange where
  first : Nat
  last : Nat
  anchor : Anchor
  deriving DecidableEq, Repr

namespace TokenRange

/-- The range from one token to another. -/
def ofTokens (first last : Nat) : TokenRange := ⟨first, last, .tokens⟩

/-- The empty range where a token starts. -/
def emptyBefore (index : Nat) : TokenRange := ⟨index, index, .before⟩

/-- The empty range where a token stops. -/
def emptyAfter (index : Nat) : TokenRange := ⟨index, index, .after⟩

/-- Whether the range holds no token. -/
def isEmpty (r : TokenRange) : Bool := r.anchor != .tokens

end TokenRange

/-- The byte offsets of the two ends of a range. -/
def TokenRange.textRange (r : TokenRange) (s : Source) : Nat × Nat :=
  match r.anchor with
  | .tokens => (s.startOffset r.first, s.stopOffset r.last)
  | .before => (s.startOffset r.first, s.startOffset r.first)
  | .after => (s.stopOffset r.first, s.stopOffset r.first)

/-- The ranges of the nodes that have one. -/
structure RangeTable where
  entries : List (NodeId × TokenRange)
  deriving DecidableEq, Repr

namespace RangeTable

/-- No node has a range. -/
def empty : RangeTable := ⟨[]⟩

/-- The range of a node. -/
def get? (t : RangeTable) (id : NodeId) : Option TokenRange := t.entries.lookup id

/-- Whether a node has a range. -/
def contains (t : RangeTable) (id : NodeId) : Bool := (t.get? id).isSome

/-- The number of nodes that have a range. -/
def size (t : RangeTable) : Nat := t.entries.length

/-- Give a node a range. -/
def insert (t : RangeTable) (id : NodeId) (r : TokenRange) : RangeTable :=
  ⟨(id, r) :: t.entries⟩

/-- Give each of several nodes the same range. -/
def insertAll (t : RangeTable) (ids : List NodeId) (r : TokenRange) : RangeTable :=
  ids.foldl (fun t id => t.insert id r) t

@[simp] theorem get?_insert_self (t : RangeTable) (id : NodeId) (r : TokenRange) :
    (t.insert id r).get? id = some r := by
  simp [get?, insert]

theorem get?_insert_of_ne {t : RangeTable} {id other : NodeId} {r : TokenRange}
    (h : other ≠ id) : (t.insert id r).get? other = t.get? other := by
  simp [get?, insert, List.lookup_cons, beq_eq_false_iff_ne.2 h]

end RangeTable

end SourceSpans
