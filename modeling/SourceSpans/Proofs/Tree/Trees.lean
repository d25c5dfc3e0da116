import SourceSpans.Proofs.Tree.Adoption
import SourceSpans.Proofs.Tree.DepthFirst

/-!
# Graphs that are trees

What lies under a root is a tree if every node in it is listed once, and the root not at all
(`NodeTable.IsTree`).

* **The walk** (`isTree_iff`): this is so if and only if the walk makes a tree of it in which every node
  has all of its children.
* **Adoption** (`IsTree.mem_adoptions_iff`): in a tree every node has its turn to adopt, and adopts all
  of its children. A child that had been seen before would have had its parent done before.
-/

namespace SourceSpans.NodeTable

variable {g : NodeTable} {root p c : NodeId}

/-- What lies under a root is a tree. -/
structure IsTree (g : NodeTable) (root : NodeId) : Prop where
  /-- No node lists a child twice. -/
  nodup : ∀ u ∈ g.walk root, (g.children (g.shape root) u).Nodup
  /-- No two nodes list the same child. -/
  unique : ∀ u ∈ g.walk root, ∀ v ∈ g.walk root, ∀ c, c ∈ g.children (g.shape root) u →
    c ∈ g.children (g.shape root) v → u = v
  root_unlisted : ∀ u ∈ g.walk root, root ∉ g.children (g.shape root) u

namespace IsTree

/-- Whoever lists a node is its parent. -/
theorem parent?_eq (h : g.IsTree root) (hp : p ∈ g.walk root)
    (hc : c ∈ g.children (g.shape root) p) : g.parent? root c = some p := by
  have hne : c ≠ root := fun heq => h.root_unlisted p hp (heq ▸ hc)
  obtain ⟨q, hq⟩ := exists_parent? (mem_walk_of_mem_children hp hc) hne
  obtain ⟨hqwalk, hqchild, -⟩ := of_parent?_eq_some hq
  rw [h.unique p hp q hqwalk c hc hqchild, hq]

/-- The walk reaches all children of a node from it, in the order in which it lists them. -/
theorem reachedFrom_eq (h : g.IsTree root) (hp : p ∈ g.walk root) :
    g.reachedFrom root p = g.children (g.shape root) p := by
  have hnodup := h.nodup p hp
  have hsublist := reachedFrom_sublist_newIn hp
  rw [newIn_eq_self hnodup fun _ _ => List.not_mem_nil] at hsublist
  rw [eq_filter_of_sublist hsublist hnodup, List.filter_eq_self]
  intro c hc
  rw [decide_eq_true_eq, mem_reachedFrom]
  exact ⟨mem_walk_of_mem_children hp hc, h.parent?_eq hp hc⟩

end IsTree

/-- **A graph is a tree if the walk makes a tree of it in which all nodes have all of their children**,
and only then. -/
theorem isTree_iff : g.IsTree root ↔ ∀ t ∈ (g.unfolding root).subtrees,
    t.children.map SyntaxTree.id = g.children (g.shape root) t.id := by
  constructor
  · intro h t ht
    have hwalk : t.id ∈ g.walk root := by
      rw [← preorder_unfolding, ← SyntaxTree.map_id_subtrees]
      exact List.mem_map_of_mem ht
    rw [map_id_children ht, h.reachedFrom_eq hwalk]
  · intro h
    have hreached : ∀ u ∈ g.walk root, g.reachedFrom root u = g.children (g.shape root) u := by
      intro u hu
      obtain ⟨t, ht, rfl⟩ := exists_mem_subtrees hu
      rw [← h t ht, map_id_children ht]
    have hparent : ∀ u ∈ g.walk root, ∀ c ∈ g.children (g.shape root) u,
        g.parent? root c = some u := by
      intro u hu c hc
      rw [← hreached u hu] at hc
      exact (mem_reachedFrom.1 hc).2
    refine ⟨fun u hu => ?_, fun u hu v hv c hcu hcv => ?_, fun u hu hroot => ?_⟩
    · rw [← hreached u hu]
      exact (g.nodup_walk root).sublist List.filter_sublist
    · exact Option.some.inj ((hparent u hu c hcu).symm.trans (hparent v hv c hcv))
    · have hparent := hparent u hu root hroot
      rw [parent?_root] at hparent
      cases hparent

namespace IsTree

theorem adopted_eq (h : g.IsTree root) {adopted : List NodeId}
    (hadopted : (p, adopted) ∈ g.adoptions root) : adopted = g.children (g.shape root) p := by
  have hp := (of_mem_adoptions hadopted).1
  have hlisted := listedUnderParents_of_unique h.unique
  obtain ⟨seen, stack, hstate, rfl⟩ := exists_adopting_of_mem_adoptions hlisted hadopted
  refine newIn_eq_self (h.nodup p hp) fun c hc hseen => ?_
  exact (hstate.parent_done c hseen p (h.parent?_eq hp hc)).2 List.mem_cons_self

/-- **Every node of a tree adopts all of its children.** -/
theorem mem_adoptions_iff (h : g.IsTree root) {adopted : List NodeId} :
    (p, adopted) ∈ g.adoptions root ↔ p ∈ g.walk root ∧ adopted = g.children (g.shape root) p := by
  refine ⟨fun hadopted => ⟨(of_mem_adoptions hadopted).1, h.adopted_eq hadopted⟩, ?_⟩
  rintro ⟨hp, rfl⟩
  have hturn : ∃ adopted, (p, adopted) ∈ g.adoptions root := by
    induction mem_walk_iff.1 hp with
    | refl => exact exists_mem_adoptionsFrom List.mem_cons_self
    | @tail u c hu hc ih =>
      obtain ⟨adopted, hadopted⟩ := ih (mem_walk_iff.2 hu)
      rw [← h.adopted_eq hadopted] at hc
      exact exists_mem_adoptionsFrom_of_adopted hadopted hc
  obtain ⟨adopted, hadopted⟩ := hturn
  rwa [← h.adopted_eq hadopted]

end IsTree

end SourceSpans.NodeTable
