import SourceSpans.Tree.Basic

/-!
# Walking a tree

`walk` visits the nodes that can be reached from a root, parents before children and children in
the order of the source, each node once. It keeps the nodes still to be visited on a stack, where
a node may lie several times; only the first time counts. Since a visited node is never expanded
again the walk ends on any table of nodes, also when nodes are shared or contain each other.
-/

namespace SourceSpans.NodeTable

/-- The number of nodes that have not been seen. -/
def unseen (g : NodeTable) (seen : List NodeId) : Nat :=
  (g.ids.filter fun id => !seen.contains id).length

theorem unseen_cons_le (g : NodeTable) (seen : List NodeId) (id : NodeId) :
    g.unseen (id :: seen) ≤ g.unseen seen := by
  unfold unseen
  rw [← List.countP_eq_length_filter, ← List.countP_eq_length_filter]
  refine List.countP_mono_left fun x _ h => ?_
  simp_all

theorem unseen_cons_lt {g : NodeTable} {seen : List NodeId} {id : NodeId} (h : id ∈ g.ids)
    (h' : seen.contains id = false) : g.unseen (id :: seen) < g.unseen seen := by
  unfold unseen
  generalize g.ids = ids at h
  induction ids with
  | nil => simp at h
  | cons a ids ih =>
    have hle : (ids.filter fun x => !(id :: seen).contains x).length
        ≤ (ids.filter fun x => !seen.contains x).length := by
      rw [← List.countP_eq_length_filter, ← List.countP_eq_length_filter]
      refine List.countP_mono_left fun x _ hx => ?_
      simp_all
    by_cases ha : a = id
    · subst ha
      rw [List.filter_cons_of_neg (by simp), List.filter_cons_of_pos (by simpa using h')]
      simp only [List.length_cons]
      omega
    · have hmem : id ∈ ids := by simpa [Ne.symm ha] using h
      have := ih hmem
      by_cases hs : seen.contains a = true
      · rw [List.filter_cons_of_neg (by simp_all), List.filter_cons_of_neg (by simp_all)]
        exact this
      · rw [List.filter_cons_of_pos (by simp_all), List.filter_cons_of_pos (by simp_all)]
        simp only [List.length_cons]
        omega

theorem children_eq_nil_of_not_mem {g : NodeTable} {shape : Shape} {id : NodeId}
    (h : id ∉ g.ids) : g.children shape id = [] := by
  have : g.node? id = none := by
    unfold node? ids at *
    generalize g.nodes = nodes at h
    induction nodes with
    | nil => rfl
    | cons n nodes ih =>
      obtain ⟨a, n⟩ := n
      simp only [List.map_cons, List.mem_cons, not_or] at h
      rw [List.lookup_cons, beq_eq_false_iff_ne.2 h.1]
      exact ih h.2
  simp [children, this]

/-- The nodes that the walk still visits, in order, when `seen` have been visited and the nodes on
the stack are due. -/
def walkFrom (g : NodeTable) (shape : Shape) : (seen stack : List NodeId) → List NodeId
  | _, [] => []
  | seen, id :: stack =>
      if seen.contains id then walkFrom g shape seen stack
      else id :: walkFrom g shape (id :: seen) (g.children shape id ++ stack)
termination_by seen stack => (g.unseen seen, stack.length)
decreasing_by
  · exact Prod.Lex.right _ (by simp)
  · rename_i h
    by_cases hid : id ∈ g.ids
    · exact Prod.Lex.left _ _ (unseen_cons_lt hid (by simpa using h))
    · rw [children_eq_nil_of_not_mem hid]
      obtain hlt | heq := Nat.lt_or_eq_of_le (g.unseen_cons_le seen id)
      · exact Prod.Lex.left _ _ hlt
      · rw [heq]
        exact Prod.Lex.right _ (by simp)

/-- The nodes that can be reached from a root, parents before children, each once. -/
def walk (g : NodeTable) (root : NodeId) : List NodeId := g.walkFrom (g.shape root) [] [root]

end SourceSpans.NodeTable
