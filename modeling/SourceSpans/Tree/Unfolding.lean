import SourceSpans.Tree.Basic

/-!
# The tree of first visits

A table of nodes may share nodes and run in circles. Its *unfolding* from a root is a tree: a
depth-first visit enters each node once, and the parent of a node is the node from which the visit
first reaches it. What is said of the children of a marked node is said of this tree.
-/

namespace SourceSpans

/-- A tree of nodes, each with what is needed to find it among the tokens. -/
inductive SyntaxTree
  | node (id : NodeId) (kind : String) (literal? : Option Literal) (children : List SyntaxTree)
  deriving Repr

namespace SyntaxTree

/-- The identity of the root. -/
def id : SyntaxTree → NodeId
  | node id _ _ _ => id

/-- The kind of the root. -/
def kind : SyntaxTree → String
  | node _ kind _ _ => kind

/-- The literal of the root. -/
def literal? : SyntaxTree → Option Literal
  | node _ _ literal? _ => literal?

/-- The trees under the root. -/
def children : SyntaxTree → List SyntaxTree
  | node _ _ _ children => children

mutual

/-- The identities in a tree, parents before children. -/
def preorder : SyntaxTree → List NodeId
  | node id _ _ children => id :: preorderAll children

/-- The identities in trees, one tree after the other. -/
def preorderAll : List SyntaxTree → List NodeId
  | [] => []
  | t :: rest => preorder t ++ preorderAll rest

end

end SyntaxTree

namespace NodeTable

/-- Visit each of several nodes that has not been seen before; answer the trees and all that has
been seen then. A node counts as seen when its visit begins. -/
def unfoldAll (visit : List NodeId → NodeId → SyntaxTree × List NodeId) :
    (seen ids : List NodeId) → List SyntaxTree × List NodeId
  | seen, [] => ([], seen)
  | seen, id :: rest =>
      if seen.contains id then unfoldAll visit seen rest
      else
        let (tree, seen) := visit (id :: seen) id
        let (trees, seen) := unfoldAll visit seen rest
        (tree :: trees, seen)

/-- Visit a node that has been put among the seen, with so many levels below it. -/
def unfoldFrom (g : NodeTable) (shape : Shape) :
    (levels : Nat) → List NodeId → NodeId → SyntaxTree × List NodeId
  | 0, seen, id => (.node id (g.kind id) (g.literal? id) [], seen)
  | levels + 1, seen, id =>
      let (trees, seen) := unfoldAll (unfoldFrom g shape levels) seen (g.children shape id)
      (.node id (g.kind id) (g.literal? id) trees, seen)

/-- The tree of first visits from a root. No branch is longer than there are nodes. -/
def unfolding (g : NodeTable) (root : NodeId) : SyntaxTree :=
  (g.unfoldFrom (g.shape root) (g.nodes.length + 1) [root] root).1

end NodeTable

end SourceSpans
