import SourceSpans.Token.Basic

/-!
# Nodes of a syntax tree

Trees are read, never built, and they come in two shapes: a node lists its children in order, or it
has named fields some of which hold nodes. The nodes of a tree are kept in a finite table under
their identities. Nothing forbids that a node is the child of several nodes or of itself; only an
identity that is not in the table names no node and is no child.

Which shape a tree has is settled by its root.
-/

namespace SourceSpans

/-- The identity of a node. -/
abbrev NodeId := Nat

/-- How a node is written in messages. -/
def NodeId.describe (id : NodeId) : String := "#" ++ Text.hex id

/-- What a node without children looks like among the tokens. -/
inductive Literal
  /-- Tokens that together spell this text. -/
  | text (t : Text)
  /-- One or more string tokens next to each other. -/
  | strings
  /-- A number token, with the minus before it if it is negative. -/
  | number (isNegative : Bool)
  /-- One token of a kind. -/
  | token (kind : TokenKind)
  /-- Texts one after the other, with anything in between. -/
  | words (ws : List Text)
  deriving DecidableEq, Repr

namespace Literal

/-- How a literal is written in messages. -/
def describe : Literal → String
  | text t => Text.quoted t
  | strings => "string literal"
  | number true => "negative number"
  | number false => "number"
  | token kind => kind.label ++ " token"
  | words ws => Text.quoted (List.intercalate [' '] ws)

end Literal

/-- The value of a named field. -/
inductive Field (ν : Type)
  | node (n : ν)
  | nodes (ns : List ν)
  /-- A name, a number, or whatever else is no node. -/
  | value
  deriving DecidableEq, Repr

namespace Field

variable {ν μ : Type}

/-- The nodes in a field. -/
def toList : Field ν → List ν
  | node n => [n]
  | nodes ns => ns
  | value => []

/-- Put other nodes in place of the nodes of a field. -/
def map (f : ν → μ) : Field ν → Field μ
  | node n => node (f n)
  | nodes ns => nodes (ns.map f)
  | value => value

@[simp] theorem toList_map (f : ν → μ) (x : Field ν) : (x.map f).toList = x.toList.map f := by
  cases x <;> rfl

end Field

/-- A node: its kind, its children or its fields, and what is known about its place. -/
structure Node where
  kind : String
  /-- The children in order, for nodes that list them. -/
  children? : Option (List NodeId)
  /-- The named fields in the order they are declared. -/
  fields : List (String × Field NodeId)
  /-- Where the node starts, if the tree says so. -/
  place? : Option Position
  literal? : Option Literal
  deriving DecidableEq, Repr

/-- The nodes of a tree under their identities. -/
structure NodeTable where
  nodes : List (NodeId × Node)
  deriving DecidableEq, Repr

/-- How the children of the nodes of a tree are told. -/
inductive Shape
  /-- Nodes list their children. -/
  | ordered
  /-- Children are the nodes in the fields. -/
  | fields
  deriving DecidableEq, Repr

/-- How a shape is written. -/
def Shape.label : Shape → String
  | ordered => "ordered"
  | fields => "fields"

namespace NodeTable

/-- The node with an identity. -/
def node? (g : NodeTable) (id : NodeId) : Option Node := g.nodes.lookup id

/-- The identities that name a node. -/
def ids (g : NodeTable) : List NodeId := g.nodes.map Prod.fst

/-- The kind of a node. -/
def kind (g : NodeTable) (id : NodeId) : String := ((g.node? id).map Node.kind).getD ""

/-- What a node looks like among the tokens. -/
def literal? (g : NodeTable) (id : NodeId) : Option Literal := (g.node? id).bind Node.literal?

/-- Where a node starts, if the tree says so. -/
def place? (g : NodeTable) (id : NodeId) : Option Position := (g.node? id).bind Node.place?

/-- The shape of the tree under a root. -/
def shape (g : NodeTable) (root : NodeId) : Shape :=
  if ((g.node? root).bind Node.children?).isSome then .ordered else .fields

/-- Nodes by the places where they start, if all of them have one; else in the given order. Nodes
with one place keep their order. -/
def inPlaceOrder (g : NodeTable) (ids : List NodeId) : List NodeId :=
  if ids.all fun id => (g.place? id).isSome then
    ids.mergeSort fun a b =>
      ((g.place? a).getD Position.start).le ((g.place? b).getD Position.start)
  else ids

/-- The children of a node in the order of the source. -/
def children (g : NodeTable) (shape : Shape) (id : NodeId) : List NodeId :=
  match g.node? id with
  | none => []
  | some n =>
      let named := fun child => g.ids.contains child
      match shape with
      | .ordered => (n.children?.getD []).filter named
      | .fields => g.inPlaceOrder ((n.fields.flatMap fun f => f.2.toList).filter named)

theorem mem_inPlaceOrder {g : NodeTable} {ids : List NodeId} {id : NodeId} :
    id ∈ g.inPlaceOrder ids ↔ id ∈ ids := by
  unfold inPlaceOrder
  split
  · exact List.mem_mergeSort
  · rfl

/-- Children are nodes of the table. -/
theorem mem_ids_of_mem_children {g : NodeTable} {shape : Shape} {id child : NodeId}
    (h : child ∈ g.children shape id) : child ∈ g.ids := by
  unfold children at h
  split at h
  · simp at h
  · cases shape
    · simpa using (List.mem_filter.1 h).2
    · simpa using (List.mem_filter.1 (mem_inPlaceOrder.1 h)).2

end NodeTable

end SourceSpans
