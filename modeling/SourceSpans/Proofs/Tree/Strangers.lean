import SourceSpans.Proofs.Tree.Adoption

/-!
# Nodes adopted by strangers

Adoption takes the walk in its families from the last child to the first. While nodes are adopted
by their parents, a node whose turn comes later lies under those whose turn came before, or comes
before them in the walk. Whatever a node lists lies under it or comes before it in the walk. Put
together, nothing else than what lies under the parent of a node can list it.

* **Descents** (`liesUnder_iff_mem_preorder`): what lies under a node is the tree that the walk
  makes of it.
* **Listing** (`liesUnder_or_place_lt`): a node lists what lies under it and what comes before it.
* **Strangers** (`listedUnderParents_iff`): nodes are adopted by their parents only, if and only if
  whoever lists a node lies under its parent.
-/

namespace SourceSpans.NodeTable

open SyntaxTree

variable {g : NodeTable} {root : NodeId}

/-! ### What lies under a node -/

theorem LiesUnder.trans {p q x : NodeId} (hq : g.LiesUnder root p q) (hx : g.LiesUnder root q x) :
    g.LiesUnder root p x := by
  induction hx with
  | self => exact hq
  | child hparent _ ih => exact .child hparent ih

mutual

/-- The nodes of a tree lie under its root, if children in it are children of their parents. -/
theorem liesUnder_of_mem_preorder : (t : SyntaxTree) →
    (∀ u ∈ t.subtrees, ∀ c ∈ u.children, g.parent? root c.id = some u.id) →
    ∀ x ∈ t.preorder, g.LiesUnder root t.id x
  | .node _ _ _ children, hparent, x, hx => by
      rcases List.mem_cons.1 hx with rfl | hx
      · exact .self
      obtain ⟨c, hc, hunder⟩ := liesUnder_of_mem_preorderAll children
        (fun u hu => hparent u (List.mem_cons_of_mem _ hu)) x hx
      have hchild := hparent _ List.mem_cons_self c hc
      exact (LiesUnder.child hchild .self).trans hunder

/-- The nodes of several trees lie under their roots. -/
theorem liesUnder_of_mem_preorderAll : (ts : List SyntaxTree) →
    (∀ u ∈ subtreesAll ts, ∀ c ∈ u.children, g.parent? root c.id = some u.id) →
    ∀ x ∈ preorderAll ts, ∃ c ∈ ts, g.LiesUnder root c.id x
  | [], _, x, hx => absurd hx List.not_mem_nil
  | t :: rest, hparent, x, hx => by
      rcases List.mem_append.1 hx with hx | hx
      · have hunder := liesUnder_of_mem_preorder t
          (fun u hu => hparent u (List.mem_append_left _ hu)) x hx
        exact ⟨t, List.mem_cons_self, hunder⟩
      · obtain ⟨c, hc, hunder⟩ := liesUnder_of_mem_preorderAll rest
          (fun u hu => hparent u (List.mem_append_right _ hu)) x hx
        exact ⟨c, List.mem_cons_of_mem _ hc, hunder⟩

end

/-- **What lies under a node is the tree that the walk makes of it.** -/
theorem liesUnder_iff_mem_preorder {t : SyntaxTree} (ht : t ∈ (g.unfolding root).subtrees)
    {x : NodeId} : g.LiesUnder root t.id x ↔ x ∈ t.preorder := by
  have hsubset := (subtrees_isInfix _ t ht).subset
  constructor
  · intro hunder
    induction hunder with
    | self => exact id_mem_preorder t
    | @child u c hparent _ ih =>
      rw [← map_id_subtrees, List.mem_map] at ih
      obtain ⟨t', ht', rfl⟩ := ih
      have hc : c ∈ t'.children.map SyntaxTree.id := by
        rw [map_id_children (hsubset ht'), mem_reachedFrom]
        exact ⟨(of_parent?_eq_some hparent).2.2, hparent⟩
      refine (preorder_isInfix ht').subset ?_
      rw [preorder_eq]
      exact List.mem_cons_of_mem _ ((map_id_sublist_preorderAll _).subset hc)
  · exact liesUnder_of_mem_preorder t (fun u hu c hc => parent?_of_mem_children (hsubset hu) hc) x

/-- Everything in the walk lies under the root. -/
theorem liesUnder_root {x : NodeId} (hx : x ∈ g.walk root) : g.LiesUnder root root x := by
  rw [← preorder_unfolding] at hx
  exact (liesUnder_iff_mem_preorder (SyntaxTree.mem_subtrees_self _)).2 hx

/-! ### Places in the walk -/

/-- The place of a node in the walk. -/
def place (g : NodeTable) (root id : NodeId) : Nat :=
  (g.walk root).idxOf id

theorem pairwise_place (g : NodeTable) (root : NodeId) :
    (g.walk root).Pairwise fun x y => g.place root x < g.place root y := by
  have hnodup := g.nodup_walk root
  rw [List.pairwise_iff_getElem]
  intro i j hi hj hlt
  unfold place
  rwa [hnodup.idxOf_getElem, hnodup.idxOf_getElem]

theorem pairwise_place_preorder {t : SyntaxTree} (ht : t ∈ (g.unfolding root).subtrees) :
    t.preorder.Pairwise fun x y => g.place root x < g.place root y := by
  have hinfix := preorder_isInfix ht
  rw [preorder_unfolding] at hinfix
  exact (g.pairwise_place root).sublist hinfix.sublist

/-- A node comes after its parent. -/
theorem place_lt_of_parent? {p c : NodeId} (h : g.parent? root c = some p) :
    g.place root p < g.place root c := by
  obtain ⟨t, ht, rfl, u, hu, rfl⟩ := parent?_eq_some_iff.1 h
  have hpairwise := pairwise_place_preorder ht
  rw [preorder_eq] at hpairwise
  refine (List.pairwise_cons.1 hpairwise).1 _ ?_
  exact (map_id_sublist_preorderAll _).subset (List.mem_map_of_mem hu)

/-- The walk goes through all that lies under a child before it reaches the next one. -/
theorem pairwise_place_reachedFrom (g : NodeTable) (root p : NodeId) :
    (g.reachedFrom root p).Pairwise fun b c =>
      ∀ x, g.LiesUnder root b x → g.place root x < g.place root c := by
  rcases g.reachedFrom_eq_nil_or_map root p with hnil | ⟨t, ht, hmap⟩
  · rw [hnil]
    exact List.Pairwise.nil
  · have hpairwise := pairwise_place_preorder ht
    rw [preorder_eq, preorderAll_eq_flatMap] at hpairwise
    have hsiblings := (List.pairwise_flatMap.1 (List.pairwise_cons.1 hpairwise).2).2
    rw [hmap, List.pairwise_map]
    refine hsiblings.imp_of_mem fun {b c} hb _ hbc x hx => ?_
    have hb' := (subtrees_isInfix _ t ht).subset (mem_subtrees_of_mem_children hb)
    exact hbc x ((liesUnder_iff_mem_preorder hb').1 hx) _ (id_mem_preorder c)

/-- **A node lists what lies under it and what comes before it in the walk.** -/
theorem liesUnder_or_place_lt {u c : NodeId} (hu : u ∈ g.walk root)
    (hc : c ∈ g.children (g.shape root) u) :
    g.LiesUnder root u c ∨ g.place root c < g.place root u := by
  obtain ⟨t, ht, rfl⟩ := exists_mem_subtrees hu
  obtain ⟨before, after, hsplit, hvisits⟩ := exists_visits_of_mem_subtrees ht
  rcases hvisits.seen_or_entered.1 c hc with hseen | hentered
  · rcases List.mem_cons.1 hseen with rfl | hbefore
    · exact Or.inl .self
    right
    have hpairwise := g.pairwise_place root
    rw [hsplit, List.append_assoc, List.pairwise_append] at hpairwise
    refine hpairwise.2.2 c (List.mem_reverse.1 hbefore) _ ?_
    exact List.mem_append_left _ (id_mem_preorder t)
  · left
    rw [liesUnder_iff_mem_preorder ht, preorder_eq]
    exact List.mem_cons_of_mem _ hentered

/-! ### Adoption backwards through the walk -/

/-- While nodes are adopted by their parents, they are taken off the stack against the order of the
walk: what is still to come lies under a node that has been taken off, or before it in the walk. -/
structure Descending (g : NodeTable) (root : NodeId) (seen stack : List NodeId) : Prop
    extends Adopting g root seen stack where
  later : stack.Pairwise fun s w => ∀ x, g.LiesUnder root w x → g.place root x < g.place root s
  before_done : ∀ p ∈ seen, p ∉ stack → ∀ s ∈ stack, ∀ x, g.LiesUnder root s x →
    g.LiesUnder root p x ∨ g.place root x < g.place root p
  listed : ∀ u ∈ seen, u ∉ stack → ∀ c ∈ g.children (g.shape root) u, ∀ p,
    g.parent? root c = some p → g.LiesUnder root p u

namespace Descending

variable {u : NodeId} {seen stack : List NodeId}

theorem start (g : NodeTable) (root : NodeId) : g.Descending root [root] [root] where
  toAdopting := .start g root
  later := List.pairwise_singleton _ _
  before_done := fun _ hp hnot => absurd hp hnot
  listed := fun _ hu hnot => absurd hu hnot

/-- Whoever is the parent of what the next node lists has the next node under it. -/
theorem liesUnder_of_mem_children (h : g.Descending root seen (u :: stack))
    (hparent : ∀ c ∈ newIn seen (g.children (g.shape root) u), g.parent? root c = some u)
    {c p : NodeId} (hc : c ∈ g.children (g.shape root) u) (hp : g.parent? root c = some p) :
    g.LiesUnder root p u := by
  have hu : u ∈ seen := h.stack_subset u List.mem_cons_self
  by_cases hcs : c ∈ seen
  · obtain ⟨hps, hpdone⟩ := h.parent_done c hcs p hp
    rcases h.before_done p hps hpdone u List.mem_cons_self u .self with hunder | hlt
    · exact hunder
    -- otherwise `u` comes before `p` and thus before `c`, so that it has `c` and `p` under it
    have hpc := place_lt_of_parent? hp
    rcases liesUnder_or_place_lt (h.seen_subset u hu) hc with hunder | hlt'
    · cases hunder with
      | self => omega
      | child hp' hunder =>
        obtain rfl := Option.some.inj (hp.symm.trans hp')
        rcases h.done_of_liesUnder hps hunder with rfl | ⟨-, hudone⟩
        · exact .self
        · exact absurd List.mem_cons_self hudone
    · omega
  · have hadopted := hparent c (mem_newIn.2 ⟨hc, hcs⟩)
    obtain rfl := Option.some.inj (hp.symm.trans hadopted)
    exact .self

theorem adopt (h : g.Descending root seen (u :: stack))
    (hparent : ∀ c ∈ newIn seen (g.children (g.shape root) u), g.parent? root c = some u) :
    g.Descending root ((newIn seen (g.children (g.shape root) u)).reverse ++ seen)
      ((newIn seen (g.children (g.shape root) u)).reverse ++ stack) := by
  have hadopting := h.toAdopting.adopt hparent
  have hu : u ∈ seen := h.stack_subset u List.mem_cons_self
  have hlisted : ∀ c ∈ g.children (g.shape root) u, ∀ p, g.parent? root c = some p →
      g.LiesUnder root p u := by
    intro c hc p hp
    exact h.liesUnder_of_mem_children hparent hc hp
  have hsublist : (newIn seen (g.children (g.shape root) u)).Sublist (g.reachedFrom root u) :=
    newIn_sublist_reachedFrom (h.seen_subset u hu) hparent
  generalize newIn seen (g.children (g.shape root) u) = adopted at *
  obtain ⟨hafter, hlater⟩ := List.pairwise_cons.1 h.later
  -- whoever is done now was done before, or is `u`
  have hdone : ∀ p ∈ adopted.reverse ++ seen, p ∉ adopted.reverse ++ stack →
      p = u ∨ p ∈ seen ∧ p ∉ u :: stack := by
    intro p hp hpstack
    rw [List.mem_append, not_or] at hpstack
    by_cases hpu : p = u
    · exact Or.inl hpu
    · refine Or.inr ⟨(List.mem_append.1 hp).resolve_left hpstack.1, ?_⟩
      rw [List.mem_cons, not_or]
      exact ⟨hpu, hpstack.2⟩
  refine ⟨hadopting, ?_, ?_, ?_⟩
  · rw [List.pairwise_append]
    refine ⟨?_, hlater, ?_⟩
    · rw [List.pairwise_reverse]
      exact (g.pairwise_place_reachedFrom root u).sublist hsublist
    · intro c hc w hw x hx
      have huc := place_lt_of_parent? (hparent c (List.mem_reverse.1 hc))
      exact Nat.lt_trans (hafter w hw x hx) huc
  · intro p hp hpstack s hs x hx
    rcases List.mem_append.1 hs with hs | hs
    · have hux : g.LiesUnder root u x :=
        (LiesUnder.child (hparent s (List.mem_reverse.1 hs)) .self).trans hx
      rcases hdone p hp hpstack with rfl | ⟨hps, hpdone⟩
      · exact Or.inl hux
      · exact h.before_done p hps hpdone u List.mem_cons_self x hux
    · rcases hdone p hp hpstack with rfl | ⟨hps, hpdone⟩
      · exact Or.inr (hafter s hs x hx)
      · exact h.before_done p hps hpdone s (List.mem_cons_of_mem _ hs) x hx
  · intro v hv hvstack c hc p hp
    rcases hdone v hv hvstack with rfl | ⟨hvs, hvdone⟩
    · exact hlisted c hc p hp
    · exact h.listed v hvs hvdone c hc p hp

/-- All of the walk has been seen once nothing is left on the stack. -/
theorem mem_of_mem_walk (h : g.Descending root seen []) {x : NodeId} (hx : x ∈ g.walk root) :
    x ∈ seen := by
  induction liesUnder_root hx with
  | self => exact h.root_mem
  | child hparent _ ih =>
    obtain ⟨huwalk, hchild, -⟩ := of_parent?_eq_some hparent
    exact h.children_seen _ (ih huwalk) List.not_mem_nil _ hchild

end Descending

/-- **Nodes are adopted by their parents only, if and only if whoever lists a node lies under its
parent.** -/
theorem listedUnderParents_iff :
    g.ListedUnderParents root ↔ ∀ p adopted, (p, adopted) ∈ g.adoptions root →
      ∀ c ∈ adopted, g.parent? root c = some p := by
  constructor
  · intro hg p adopted h
    exact parent?_of_mem_adoptions hg h
  · intro h
    have hrun : ∀ seen stack, g.Descending root seen stack →
        (∀ p adopted, (p, adopted) ∈ g.adoptionsFrom (g.shape root) seen stack →
          ∀ c ∈ adopted, g.parent? root c = some p) → ∃ seen', g.Descending root seen' [] := by
      intro seen stack hstate h
      fun_induction adoptionsFrom g (g.shape root) seen stack with
      | case1 seen => exact ⟨seen, hstate⟩
      | case2 seen id stack adopted ih =>
        have hparent := h id adopted List.mem_cons_self
        exact ih (hstate.adopt hparent) fun p adopted' hmem =>
          h p adopted' (List.mem_cons_of_mem _ hmem)
    obtain ⟨seen, hend⟩ := hrun [root] [root] (.start g root) h
    intro u hu
    exact hend.listed u (hend.mem_of_mem_walk hu) List.not_mem_nil

end SourceSpans.NodeTable
