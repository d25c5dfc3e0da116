import SourceSpans.Mark.Annotated
import SourceSpans.Tree.Walk

/-!
# Checking ranges

`verify` checks the ranges of the nodes under a root from the outside: every node has a range, lies
inside its parent, and starts after the previous child of its parent has ended. The nodes whose
children are still to be checked lie on a stack, the last one on top; a node counts as seen once it
has been checked among the children of a node, and is not checked again.
-/

namespace SourceSpans

/-- What is wrong with the range of a node. -/
inductive RangeViolation
  | notMarked (node : NodeId) (kind : String)
  | outsideParent (node : NodeId) (kind : String) (start stop parentStart parentStop : Nat)
  | siblingOverlap (node : NodeId) (kind : String) (start previousStop : Nat)
  deriving DecidableEq, Repr

namespace RangeViolation

/-- What is wrong, in words. -/
def message : RangeViolation → String
  | notMarked node kind => kind ++ " node " ++ node.describe ++ " has no range"
  | outsideParent node kind start stop parentStart parentStop =>
      kind ++ " node " ++ node.describe ++ " at " ++ toString start ++ ".." ++ toString stop
        ++ " is outside its parent at " ++ toString parentStart ++ ".." ++ toString parentStop
  | siblingOverlap node kind start previousStop =>
      kind ++ " node " ++ node.describe ++ " starts at " ++ toString start
        ++ ", before its previous sibling ends at " ++ toString previousStop

end RangeViolation

namespace Annotated

variable (a : Annotated)

/-- The byte offsets of a node that has to have a range. -/
def spanOf (g : NodeTable) (id : NodeId) : Except RangeViolation (Nat × Nat) :=
  match a.textRange id with
  | .ok span => .ok span
  | .error _ => .error (.notMarked id (g.kind id))

/-- What is wrong with a child at some offsets, if its parent and the previous child lie so. -/
def childViolation? (g : NodeTable) (parent span : Nat × Nat) (previousStop : Nat) (id : NodeId) :
    Option RangeViolation :=
  if span.1 < parent.1 ∨ parent.2 < span.2 then
    some (.outsideParent id (g.kind id) span.1 span.2 parent.1 parent.2)
  else if span.1 < previousStop then
    some (.siblingOverlap id (g.kind id) span.1 previousStop)
  else none

/-- Check the children of a node that have not been seen. The answer holds all that has been seen
then, and the children with their offsets, the last one first, on top of those given. -/
def checkChildren (g : NodeTable) (parent : Nat × Nat) :
    (previousStop : Nat) → (seen : List NodeId) → (stack : List (NodeId × Nat × Nat)) →
    (children : List NodeId) →
    Except RangeViolation (List NodeId × List (NodeId × Nat × Nat))
  | _, seen, stack, [] => .ok (seen, stack)
  | previousStop, seen, stack, id :: rest =>
      if seen.contains id then checkChildren g parent previousStop seen stack rest
      else
        match a.spanOf g id with
        | .error violation => .error violation
        | .ok span =>
            match childViolation? g parent span previousStop id with
            | some violation => .error violation
            | none =>
                checkChildren g parent span.2 (id :: seen) ((id, span) :: stack) rest

/-- Nodes put on the stack are new ones: as many as have been seen in the meantime. -/
theorem unseen_add_length_le_of_checkChildren {a : Annotated} {g : NodeTable}
    {parent : Nat × Nat} {previousStop : Nat} {seen seen' children : List NodeId}
    {stack stack' : List (NodeId × Nat × Nat)} (hids : ∀ id ∈ children, id ∈ g.ids)
    (h : a.checkChildren g parent previousStop seen stack children = .ok (seen', stack')) :
    g.unseen seen' + stack'.length ≤ g.unseen seen + stack.length := by
  induction children generalizing previousStop seen stack with
  | nil =>
    simp only [checkChildren, Except.ok.injEq, Prod.mk.injEq] at h
    obtain ⟨rfl, rfl⟩ := h
    exact Nat.le_refl _
  | cons id rest ih =>
    have hrest : ∀ id ∈ rest, id ∈ g.ids := fun x hx => hids x (List.mem_cons_of_mem _ hx)
    unfold checkChildren at h
    split at h
    · exact ih hrest h
    · rename_i hseen
      split at h
      · simp at h
      split at h
      · simp at h
      have := ih hrest h
      have := NodeTable.unseen_cons_lt (hids id List.mem_cons_self) (by simpa using hseen)
      simp only [List.length_cons] at *
      omega

set_option linter.unusedVariables false in
/-- Check everything below the nodes on a stack, which have been seen. -/
def verifyFrom (g : NodeTable) (shape : Shape) (seen : List NodeId) :
    (stack : List (NodeId × Nat × Nat)) → Except RangeViolation Unit
  | [] => .ok ()
  | (id, span) :: stack =>
      match h : a.checkChildren g span span.1 seen stack (g.children shape id) with
      | .error violation => .error violation
      | .ok (seen', stack') => verifyFrom g shape seen' stack'
termination_by stack => g.unseen seen + stack.length
decreasing_by
  have := unseen_add_length_le_of_checkChildren
    (fun _ => NodeTable.mem_ids_of_mem_children) h
  simp only [List.length_cons]
  omega

/-- Check the ranges of all nodes under a root. -/
def verify (g : NodeTable) (root : NodeId) : Except RangeViolation Unit := do
  let span ← a.spanOf g root
  a.verifyFrom g (g.shape root) [root] [(root, span)]

end Annotated

end SourceSpans
