import Mathlib.Data.List.Nodup
import Mathlib.Data.List.Perm.Subperm
import SourceSpans.Tree.Unfolding
import SourceSpans.Tree.Walk

/-!
# The tree of first visits and the walk

The unfolding of a table of nodes is made with a bound on its depth, the walk with a stack. Both are
the depth-first visit `Visits`, which threads the nodes seen so far:

* **The bound is never reached** (`visits_unfolding`): every level of the unfolding sees one more
  node, so there are as many levels as it takes.
* **The two orders agree** (`preorder_unfolding`): the unfolding lists the nodes in the order of the
  walk, although the walk counts a node as seen only when it is taken off the stack.
* **Parents** (`parent?_eq_some_iff`): the parent of a node in the unfolding is the last node before
  it in the walk that lists it as a child. `reachedFrom` collects the children that a node has in this
  sense, and these are its children in the unfolding (`map_id_children`).
-/

namespace SourceSpans

/-- A part of a list without repetitions is picked out by its members. -/
theorem eq_filter_of_sublist {α : Type} [DecidableEq α] {part whole : List α}
    (h : part.Sublist whole) (hnodup : whole.Nodup) :
    part = whole.filter fun x => x ∈ part := by
  have hself : part.filter (fun x => x ∈ part) = part := List.filter_eq_self.2 (by simp)
  have hsub := h.filter fun x => x ∈ part
  rw [hself] at hsub
  refine hsub.eq_of_length_le ?_
  have hmem : ∀ x ∈ whole.filter (fun x => x ∈ part), x ∈ part := fun x hx => by
    simpa using (List.mem_filter.1 hx).2
  exact (List.subperm_of_subset (hnodup.filter _) hmem).length_le

namespace SyntaxTree

mutual

/-- The trees in a tree: itself, and those in the trees under it. -/
def subtrees : SyntaxTree → List SyntaxTree
  | node id kind literal? children => node id kind literal? children :: subtreesAll children

/-- The trees in several trees. -/
def subtreesAll : List SyntaxTree → List SyntaxTree
  | [] => []
  | t :: rest => subtrees t ++ subtreesAll rest

end

theorem preorder_eq (t : SyntaxTree) : t.preorder = t.id :: preorderAll t.children := by
  cases t
  rfl

theorem subtrees_eq (t : SyntaxTree) : t.subtrees = t :: subtreesAll t.children := by
  cases t
  rfl

theorem subset_subtreesAll (ts : List SyntaxTree) : ts ⊆ subtreesAll ts := by
  induction ts with
  | nil => exact List.nil_subset _
  | cons t ts ih =>
    rw [subtreesAll, subtrees_eq, List.cons_append]
    exact List.cons_subset_cons _ (List.subset_append_of_subset_right _ ih)

theorem mem_subtrees_self (t : SyntaxTree) : t ∈ t.subtrees := by
  rw [subtrees_eq]
  exact List.mem_cons_self

theorem mem_subtrees_of_mem_children {t c : SyntaxTree} (hc : c ∈ t.children) : c ∈ t.subtrees := by
  rw [subtrees_eq]
  exact List.mem_cons_of_mem _ (subset_subtreesAll _ hc)

theorem preorderAll_eq_flatMap (ts : List SyntaxTree) :
    preorderAll ts = ts.flatMap preorder := by
  induction ts with
  | nil => rfl
  | cons t ts ih => rw [preorderAll, ih, List.flatMap_cons]

theorem preorderAll_append (ts us : List SyntaxTree) :
    preorderAll (ts ++ us) = preorderAll ts ++ preorderAll us := by
  simp only [preorderAll_eq_flatMap, List.flatMap_append]

theorem id_mem_preorder (t : SyntaxTree) : t.id ∈ t.preorder := by
  rw [preorder_eq]
  exact List.mem_cons_self

/-- The roots of several trees come in the order of the trees. -/
theorem map_id_sublist_preorderAll (ts : List SyntaxTree) :
    (ts.map id).Sublist (preorderAll ts) := by
  induction ts with
  | nil => exact List.Sublist.slnil
  | cons t ts ih =>
    rw [preorderAll, preorder_eq, List.map_cons, List.cons_append]
    exact (ih.trans (List.sublist_append_right _ _)).cons_cons _

end SyntaxTree

open SyntaxTree

/-! ### The depth-first visit -/

/-- What a depth-first visit of several nodes makes: a node that has been seen is passed over, any
other is entered, its children are visited, and then the nodes after it. -/
inductive Visits (g : NodeTable) (shape : Shape) :
    (seen ids : List NodeId) → List SyntaxTree → Prop
  | done (seen : List NodeId) : Visits g shape seen [] []
  | pass {seen rest : List NodeId} {id : NodeId} {trees : List SyntaxTree} (h : id ∈ seen)
      (hrest : Visits g shape seen rest trees) : Visits g shape seen (id :: rest) trees
  | enter {seen rest : List NodeId} {id : NodeId} {inner trees : List SyntaxTree} (h : id ∉ seen)
      (hinner : Visits g shape (id :: seen) (g.children shape id) inner)
      (hrest : Visits g shape ((preorderAll inner).reverse ++ id :: seen) rest trees) :
      Visits g shape seen (id :: rest) (.node id (g.kind id) (g.literal? id) inner :: trees)

namespace Visits

variable {g : NodeTable} {shape : Shape} {seen ids : List NodeId} {trees : List SyntaxTree}

theorem of_forall_mem_seen (h : ∀ id ∈ ids, id ∈ seen) : Visits g shape seen ids [] := by
  induction ids with
  | nil => exact .done _
  | cons id ids ih =>
    exact .pass (h id List.mem_cons_self) (ih fun x hx => h x (List.mem_cons_of_mem _ hx))

/-- The walk visits what a depth-first visit enters, in the same order, and goes on with what else
is on its stack. -/
theorem walkFrom_append (h : Visits g shape seen ids trees) (stack : List NodeId) :
    g.walkFrom shape seen (ids ++ stack) =
      preorderAll trees ++ g.walkFrom shape ((preorderAll trees).reverse ++ seen) stack := by
  induction h generalizing stack with
  | done seen => rfl
  | pass h _ ih =>
    rw [List.cons_append, NodeTable.walkFrom, if_pos (by simpa using h), ih]
  | enter h _ _ ihinner ihrest =>
    rw [List.cons_append, NodeTable.walkFrom, if_neg (by simpa using h), ihinner, ihrest]
    simp [preorderAll, preorder]

/-- A visit enters only nodes that had not been seen, and no node twice. -/
theorem nodup_append (h : Visits g shape seen ids trees) :
    (preorderAll trees).Nodup ∧ ∀ id ∈ preorderAll trees, id ∉ seen := by
  induction h with
  | done seen => exact ⟨List.nodup_nil, by simp [preorderAll]⟩
  | pass _ _ ih => exact ih
  | @enter seen rest id inner trees h _ _ ihinner ihrest =>
    obtain ⟨hinner, hseen⟩ := ihinner
    obtain ⟨hrest, hseen'⟩ := ihrest
    simp only [preorderAll, preorder, List.cons_append]
    have hnot : ∀ x ∈ preorderAll trees, x ∉ preorderAll inner ∧ x ≠ id ∧ x ∉ seen := by
      intro x hx
      simpa [not_or] using hseen' x hx
    refine ⟨List.nodup_cons.2 ⟨?_, ?_⟩, ?_⟩
    · rw [List.mem_append, not_or]
      exact ⟨fun hid => hseen id hid List.mem_cons_self, fun hid => (hnot id hid).2.1 rfl⟩
    · refine List.nodup_append'.2 ⟨hinner, hrest, fun x hx hx' => (hnot x hx').1 hx⟩
    · intro x hx
      rcases List.mem_cons.1 hx with rfl | hx
      · exact h
      rcases List.mem_append.1 hx with hx | hx
      · exact fun hs => hseen x hx (List.mem_cons_of_mem _ hs)
      · exact (hnot x hx).2.2

/-- After a visit all of its nodes have been seen, and so have the children of what it entered. -/
theorem seen_or_entered (h : Visits g shape seen ids trees) :
    (∀ id ∈ ids, id ∈ seen ∨ id ∈ preorderAll trees) ∧
      ∀ u ∈ preorderAll trees, ∀ c ∈ g.children shape u, c ∈ seen ∨ c ∈ preorderAll trees := by
  induction h with
  | done seen => simp [preorderAll]
  | pass h _ ih =>
    refine ⟨fun x hx => ?_, ih.2⟩
    rcases List.mem_cons.1 hx with rfl | hx
    · exact Or.inl h
    · exact ih.1 x hx
  | @enter seen rest id inner trees h _ _ ihinner ihrest =>
    have key : ∀ x, (x ∈ (preorderAll inner).reverse ++ id :: seen ∨ x ∈ preorderAll trees) ↔
        (x ∈ seen ∨ x ∈ preorderAll (.node id (g.kind id) (g.literal? id) inner :: trees)) := by
      intro x
      simp only [preorderAll, preorder, List.mem_append, List.mem_reverse, List.mem_cons]
      tauto
    have hinner : ∀ x, x ∈ id :: seen ∨ x ∈ preorderAll inner →
        x ∈ seen ∨ x ∈ preorderAll (.node id (g.kind id) (g.literal? id) inner :: trees) := by
      intro x hx
      rw [← key]
      left
      simpa [or_comm, or_assoc] using hx
    refine ⟨fun x hx => ?_, fun u hu c hc => ?_⟩
    · rcases List.mem_cons.1 hx with rfl | hx
      · exact hinner x (Or.inl List.mem_cons_self)
      · exact (key x).1 (ihrest.1 x hx)
    · rw [preorderAll, preorder, List.cons_append, List.mem_cons, List.mem_append] at hu
      rcases hu with rfl | hu | hu
      · exact hinner c (ihinner.1 c hc)
      · exact hinner c (ihinner.2 u hu c hc)
      · exact (key c).1 (ihrest.2 u hu c hc)

/-- A visit enters each of its trees from the list of its nodes, and nothing entered before such a
tree lists its root as a child. -/
theorem exists_preorderAll_eq (h : Visits g shape seen ids trees) {c : SyntaxTree}
    (hc : c ∈ trees) :
    c.id ∈ ids ∧ ∃ before after, preorderAll trees = before ++ c.id :: after ∧
      ∀ u ∈ before, c.id ∉ g.children shape u := by
  induction h with
  | done seen => exact absurd hc List.not_mem_nil
  | pass _ _ ih =>
    obtain ⟨hid, hsplit⟩ := ih hc
    exact ⟨List.mem_cons_of_mem _ hid, hsplit⟩
  | @enter seen rest id inner trees h hinner hrest _ ihrest =>
    rcases List.mem_cons.1 hc with rfl | hc
    · exact ⟨List.mem_cons_self, [], _, by rw [preorderAll, preorder]; rfl, by simp⟩
    · obtain ⟨hid, before, after, hsplit, hbefore⟩ := ihrest hc
      refine ⟨List.mem_cons_of_mem _ hid, id :: preorderAll inner ++ before, after, ?_, ?_⟩
      · rw [preorderAll, preorder, hsplit, List.append_assoc]
      · -- a listed child of what was entered before has been seen when `c` is entered
        have hnew : c.id ∉ (preorderAll inner).reverse ++ id :: seen := by
          refine hrest.nodup_append.2 _ ?_
          rw [hsplit]
          simp
        simp only [List.mem_append, List.mem_reverse, List.mem_cons, not_or] at hnew
        obtain ⟨hni, hnid, hns⟩ := hnew
        intro u hu hcu
        rw [List.cons_append, List.mem_cons, List.mem_append] at hu
        rcases hu with rfl | hu | hu
        · rcases hinner.seen_or_entered.1 _ hcu with hs | hs
          · exact (List.mem_cons.1 hs).elim hnid hns
          · exact hni hs
        · rcases hinner.seen_or_entered.2 u hu _ hcu with hs | hs
          · exact (List.mem_cons.1 hs).elim hnid hns
          · exact hni hs
        · exact hbefore u hu hcu

/-- The trees of a visit have the kinds and the literals of their nodes. -/
theorem kind_literal?_eq (h : Visits g shape seen ids trees) {t : SyntaxTree}
    (ht : t ∈ subtreesAll trees) : t.kind = g.kind t.id ∧ t.literal? = g.literal? t.id := by
  induction h with
  | done seen => exact absurd ht List.not_mem_nil
  | pass _ _ ih => exact ih ht
  | enter _ _ _ ihinner ihrest =>
    rw [subtreesAll, subtrees, List.cons_append, List.mem_cons, List.mem_append] at ht
    rcases ht with rfl | ht | ht
    · exact ⟨rfl, rfl⟩
    · exact ihinner ht
    · exact ihrest ht

/-- A node of the tree is visited after what was entered before it, and its children are visited then. -/
theorem exists_visits_children (h : Visits g shape seen ids trees) {t : SyntaxTree}
    (ht : t ∈ subtreesAll trees) :
    ∃ before after, preorderAll trees = before ++ t.preorder ++ after ∧
      Visits g shape (t.id :: (before.reverse ++ seen)) (g.children shape t.id) t.children := by
  induction h with
  | done seen => exact absurd ht List.not_mem_nil
  | pass _ _ ih => exact ih ht
  | @enter seen rest id inner trees _ hinner _ ihinner ihrest =>
    rw [subtreesAll, subtrees, List.cons_append, List.mem_cons, List.mem_append] at ht
    rcases ht with rfl | ht | ht
    · exact ⟨[], preorderAll trees, rfl, hinner⟩
    · obtain ⟨before, after, hsplit, hvisits⟩ := ihinner ht
      refine ⟨id :: before, after ++ preorderAll trees, ?_, ?_⟩
      · simp [preorderAll, preorder, hsplit]
      · simpa using hvisits
    · obtain ⟨before, after, hsplit, hvisits⟩ := ihrest ht
      refine ⟨id :: preorderAll inner ++ before, after, ?_, ?_⟩
      · simp [preorderAll, preorder, hsplit]
      · simpa using hvisits

/-- Between a node of the tree and a child of it nothing is entered that lists this child. -/
theorem exists_edge (h : Visits g shape seen ids trees) {t c : SyntaxTree}
    (ht : t ∈ subtreesAll trees) (hc : c ∈ t.children) :
    c.id ∈ g.children shape t.id ∧ ∃ before between after,
      preorderAll trees = before ++ t.id :: between ++ c.id :: after ∧
        ∀ u ∈ between, c.id ∉ g.children shape u := by
  obtain ⟨before, after, hsplit, hvisits⟩ := h.exists_visits_children ht
  obtain ⟨hid, between, after', hsplit', hbetween⟩ := hvisits.exists_preorderAll_eq hc
  refine ⟨hid, before, between, after' ++ after, ?_, hbetween⟩
  rw [hsplit, preorder_eq, hsplit']
  simp

end Visits

/-! ### The unfolding is a depth-first visit -/

namespace NodeTable

variable {g : NodeTable} {shape : Shape}

theorem mem_of_unseen_eq_zero {seen : List NodeId} {id : NodeId} (hid : id ∈ g.ids)
    (h : g.unseen seen = 0) : id ∈ seen := by
  by_contra hnot
  have := unseen_cons_lt hid (by simpa using hnot : seen.contains id = false)
  omega

theorem unseen_append_le (g : NodeTable) (new seen : List NodeId) :
    g.unseen (new ++ seen) ≤ g.unseen seen := by
  induction new with
  | nil => exact Nat.le_refl _
  | cons id new ih => exact Nat.le_trans (g.unseen_cons_le _ id) ih

theorem unseen_le_length (g : NodeTable) (seen : List NodeId) :
    g.unseen seen ≤ g.nodes.length := by
  unfold unseen ids
  exact Nat.le_trans (List.length_filter_le _ _) (Nat.le_of_eq (List.length_map _))

/-- Visiting one after the other with a visit that is depth-first is depth-first. -/
theorem visits_unfoldAll {visit : List NodeId → NodeId → SyntaxTree × List NodeId}
    {ids : List NodeId} :
    (seen : List NodeId) →
    (∀ new id, id ∈ ids → id ∉ new ++ seen → ∃ inner,
      Visits g shape (id :: (new ++ seen)) (g.children shape id) inner ∧
        visit (id :: (new ++ seen)) id = (.node id (g.kind id) (g.literal? id) inner,
          (preorderAll inner).reverse ++ id :: (new ++ seen))) →
    Visits g shape seen ids (unfoldAll visit seen ids).1 ∧
      (unfoldAll visit seen ids).2 =
        (preorderAll (unfoldAll visit seen ids).1).reverse ++ seen := by
  induction ids with
  | nil => exact fun seen _ => ⟨.done _, rfl⟩
  | cons id rest ih =>
    intro seen hvisit
    rw [unfoldAll]
    by_cases hid : id ∈ seen
    · rw [if_pos (by simpa using hid)]
      obtain ⟨h, heq⟩ := ih seen fun new x hx => hvisit new x (List.mem_cons_of_mem _ hx)
      exact ⟨.pass hid h, heq⟩
    · rw [if_neg (by simpa using hid)]
      obtain ⟨inner, hinner, heq⟩ := hvisit [] id List.mem_cons_self hid
      rw [List.nil_append] at hinner heq
      obtain ⟨h, heq'⟩ := ih ((preorderAll inner).reverse ++ id :: seen) fun new x hx hnew => by
        have := hvisit (new ++ ((preorderAll inner).reverse ++ [id])) x (List.mem_cons_of_mem _ hx)
        simp only [List.append_assoc, List.cons_append, List.nil_append] at this
        exact this (by simpa using hnew)
      simp only [heq]
      refine ⟨.enter hid hinner h, ?_⟩
      rw [heq']
      simp [preorderAll, preorder]

/-- With at least as many levels as nodes that have not been seen, the unfolding is a depth-first
visit. -/
theorem visits_unfoldFrom (levels : Nat) :
    ∀ (seen ids : List NodeId), (∀ id ∈ ids, id ∈ g.ids) → g.unseen seen ≤ levels + 1 →
      Visits g shape seen ids (unfoldAll (g.unfoldFrom shape levels) seen ids).1 ∧
        (unfoldAll (g.unfoldFrom shape levels) seen ids).2 =
          (preorderAll (unfoldAll (g.unfoldFrom shape levels) seen ids).1).reverse ++ seen := by
  induction levels with
  | zero =>
    intro seen ids hids hle
    refine visits_unfoldAll seen fun new id hid hnew => ⟨[], ?_, rfl⟩
    have hlt := unseen_cons_lt (hids id hid) (by simpa using hnew : (new ++ seen).contains id = false)
    have happ := g.unseen_append_le new seen
    exact .of_forall_mem_seen fun c hc =>
      mem_of_unseen_eq_zero (mem_ids_of_mem_children hc) (by omega)
  | succ levels ih =>
    intro seen ids hids hle
    refine visits_unfoldAll seen fun new id hid hnew => ?_
    have hlt := unseen_cons_lt (hids id hid) (by simpa using hnew : (new ++ seen).contains id = false)
    have happ := g.unseen_append_le new seen
    obtain ⟨h, heq⟩ := ih (id :: (new ++ seen)) (g.children shape id)
      (fun c hc => mem_ids_of_mem_children hc) (by omega)
    exact ⟨_, h, by rw [unfoldFrom, ← heq]⟩

/-- The unfolding is the depth-first visit of the root. -/
theorem visits_unfolding (g : NodeTable) (root : NodeId) :
    Visits g (g.shape root) [] [root] [g.unfolding root] := by
  have h := @visits_unfoldFrom g (g.shape root) g.nodes.length [root]
    (g.children (g.shape root) root) (fun c hc => mem_ids_of_mem_children hc)
    (Nat.le_succ_of_le (g.unseen_le_length _))
  exact .enter List.not_mem_nil h.1 (.done _)

/-- **The unfolding lists the nodes in the order of the walk.** -/
theorem preorder_unfolding (g : NodeTable) (root : NodeId) :
    (g.unfolding root).preorder = g.walk root := by
  have h := (g.visits_unfolding root).walkFrom_append []
  rw [walk]
  simpa [preorderAll, walkFrom] using h.symm

/-- Every tree in the unfolding is visited after what stands before it in the walk. -/
theorem exists_visits_of_mem_subtrees {root : NodeId} {t : SyntaxTree}
    (ht : t ∈ (g.unfolding root).subtrees) :
    ∃ before after, g.walk root = before ++ t.preorder ++ after ∧
      Visits g (g.shape root) (t.id :: before.reverse) (g.children (g.shape root) t.id)
        t.children := by
  have ht' : t ∈ subtreesAll [g.unfolding root] := List.mem_append_left _ ht
  obtain ⟨before, after, hsplit, hvisits⟩ := (g.visits_unfolding root).exists_visits_children ht'
  rw [preorderAll, preorderAll, List.append_nil, preorder_unfolding] at hsplit
  rw [List.append_nil] at hvisits
  exact ⟨before, after, hsplit, hvisits⟩

theorem kind_of_mem_subtrees {root : NodeId} {t : SyntaxTree} (ht : t ∈ (g.unfolding root).subtrees) :
    t.kind = g.kind t.id :=
  ((g.visits_unfolding root).kind_literal?_eq (List.mem_append_left _ ht)).1

theorem literal?_of_mem_subtrees {root : NodeId} {t : SyntaxTree}
    (ht : t ∈ (g.unfolding root).subtrees) : t.literal? = g.literal? t.id :=
  ((g.visits_unfolding root).kind_literal?_eq (List.mem_append_left _ ht)).2

theorem nodup_walk (g : NodeTable) (root : NodeId) : (g.walk root).Nodup := by
  have h := (g.visits_unfolding root).nodup_append.1
  rwa [preorderAll, preorderAll, List.append_nil, preorder_unfolding] at h

theorem mem_walk_of_mem_children {root u c : NodeId} (hu : u ∈ g.walk root)
    (hc : c ∈ g.children (g.shape root) u) : c ∈ g.walk root := by
  rw [← preorder_unfolding] at hu ⊢
  have h := (g.visits_unfolding root).seen_or_entered.2 u
    (by rwa [preorderAll, preorderAll, List.append_nil]) c hc
  simpa [preorderAll] using h

/-! ### Parents -/

/-- The node from which the walk first reaches a node: the last one visited before it that lists it
as a child. The root has none. -/
def parent? (g : NodeTable) (root c : NodeId) : Option NodeId :=
  ((g.walk root).takeWhile (· != c)).reverse.find? fun u =>
    (g.children (g.shape root) u).contains c

/-- The nodes that the walk first reaches from a node, in the order of the walk. -/
def reachedFrom (g : NodeTable) (root p : NodeId) : List NodeId :=
  (g.walk root).filter fun c => g.parent? root c = some p

theorem mem_reachedFrom {root p c : NodeId} :
    c ∈ g.reachedFrom root p ↔ c ∈ g.walk root ∧ g.parent? root c = some p := by
  simp [reachedFrom]

theorem parent?_eq_some_of_walk_eq {root p c : NodeId} {before between after : List NodeId}
    (hwalk : g.walk root = before ++ p :: between ++ c :: after)
    (hp : c ∈ g.children (g.shape root) p)
    (hbetween : ∀ u ∈ between, c ∉ g.children (g.shape root) u) : g.parent? root c = some p := by
  have hnot : ∀ u ∈ before ++ p :: between, (u != c) = true := by
    intro u hu
    have hnodup := g.nodup_walk root
    rw [hwalk, List.nodup_append'] at hnodup
    have hne : u ≠ c := fun h => hnodup.2.2 (h ▸ hu) List.mem_cons_self
    simpa using hne
  unfold parent?
  rw [hwalk, List.takeWhile_append_of_pos hnot, List.takeWhile_cons_of_neg (by simp),
    List.append_nil, List.reverse_append, List.reverse_cons, List.append_assoc, List.find?_append,
    List.find?_eq_none.2 (by simpa using hbetween), Option.none_or, List.singleton_append,
    List.find?_cons_of_pos (by simpa using hp)]

/-- A node has seen its parent before it, which lists it. -/
theorem of_parent?_eq_some {root p c : NodeId} (h : g.parent? root c = some p) :
    p ∈ g.walk root ∧ c ∈ g.children (g.shape root) p ∧ c ∈ g.walk root := by
  have hp := List.mem_of_find?_eq_some h
  have hc := List.find?_some h
  have hwalk : p ∈ g.walk root := List.takeWhile_subset _ (List.mem_reverse.1 hp)
  have hchild : c ∈ g.children (g.shape root) p := by simpa using hc
  exact ⟨hwalk, hchild, mem_walk_of_mem_children hwalk hchild⟩

/-- No node is first reached from a node without children in the table. -/
theorem reachedFrom_eq_nil {root p : NodeId} (h : g.children (g.shape root) p = []) :
    g.reachedFrom root p = [] := by
  rw [List.eq_nil_iff_forall_not_mem]
  intro c hc
  have hchild := (of_parent?_eq_some (mem_reachedFrom.1 hc).2).2.1
  rw [h] at hchild
  exact absurd hchild List.not_mem_nil

theorem parent?_root (g : NodeTable) (root : NodeId) : g.parent? root root = none := by
  have hhead : ∃ rest, g.walk root = root :: rest := by
    rw [← preorder_unfolding, preorder_eq]
    exact ⟨_, rfl⟩
  obtain ⟨rest, hrest⟩ := hhead
  simp [parent?, hrest]

/-- The parent of a child in the unfolding is the node above it. -/
theorem parent?_of_mem_children {root : NodeId} {t c : SyntaxTree}
    (ht : t ∈ (g.unfolding root).subtrees) (hc : c ∈ t.children) :
    g.parent? root c.id = some t.id := by
  obtain ⟨hid, before, between, after, hsplit, hbetween⟩ :=
    (g.visits_unfolding root).exists_edge (by simpa [subtreesAll] using ht) hc
  rw [preorderAll, preorderAll, List.append_nil, preorder_unfolding] at hsplit
  exact parent?_eq_some_of_walk_eq hsplit hid hbetween

end NodeTable

namespace SyntaxTree

mutual

/-- Every node of a tree is its root or a child somewhere in it. -/
theorem eq_id_or_child : (t : SyntaxTree) → ∀ x ∈ t.preorder,
    x = t.id ∨ ∃ u ∈ t.subtrees, ∃ c ∈ u.children, c.id = x
  | .node id kind literal? children, x, hx => by
      rcases List.mem_cons.1 hx with rfl | hx
      · exact Or.inl rfl
      right
      rcases id_or_child_all children x hx with ⟨c, hc, rfl⟩ | ⟨u, hu, hchild⟩
      · exact ⟨_, List.mem_cons_self, c, hc, rfl⟩
      · exact ⟨u, List.mem_cons_of_mem _ hu, hchild⟩

/-- Every node of several trees is a root of one of them or a child somewhere in them. -/
theorem id_or_child_all : (ts : List SyntaxTree) → ∀ x ∈ preorderAll ts,
    (∃ t ∈ ts, t.id = x) ∨ ∃ u ∈ subtreesAll ts, ∃ c ∈ u.children, c.id = x
  | [], x, hx => absurd hx List.not_mem_nil
  | t :: rest, x, hx => by
      rcases List.mem_append.1 hx with hx | hx
      · rcases eq_id_or_child t x hx with rfl | ⟨u, hu, hchild⟩
        · exact Or.inl ⟨t, List.mem_cons_self, rfl⟩
        · exact Or.inr ⟨u, List.mem_append_left _ hu, hchild⟩
      · rcases id_or_child_all rest x hx with ⟨u, hu, rfl⟩ | ⟨u, hu, hchild⟩
        · exact Or.inl ⟨u, List.mem_cons_of_mem _ hu, rfl⟩
        · exact Or.inr ⟨u, List.mem_append_right _ hu, hchild⟩

/-- The roots of the trees in a tree are its nodes. -/
theorem map_id_subtrees : (t : SyntaxTree) → t.subtrees.map SyntaxTree.id = t.preorder
  | .node id kind literal? children => by
      rw [subtrees, preorder, List.map_cons, map_id_subtreesAll children]
      rfl

theorem map_id_subtreesAll : (ts : List SyntaxTree) →
    (subtreesAll ts).map SyntaxTree.id = preorderAll ts
  | [] => rfl
  | t :: rest => by
      rw [subtreesAll, preorderAll, List.map_append, map_id_subtrees t, map_id_subtreesAll rest]

/-- With a tree all trees in it stand in another one. -/
theorem subtrees_isInfix : (t : SyntaxTree) → ∀ u ∈ t.subtrees, u.subtrees <:+: t.subtrees
  | .node id kind literal? children, u, hu => by
      rcases List.mem_cons.1 hu with rfl | hu
      · exact List.infix_rfl
      · exact (subtrees_isInfix_all children u hu).trans (List.suffix_cons _ _).isInfix

/-- With a tree all trees in it stand in several other ones. -/
theorem subtrees_isInfix_all : (ts : List SyntaxTree) → ∀ u ∈ subtreesAll ts,
    u.subtrees <:+: subtreesAll ts
  | [], u, hu => absurd hu List.not_mem_nil
  | t :: rest, u, hu => by
      rcases List.mem_append.1 hu with hu | hu
      · exact (subtrees_isInfix t u hu).trans (List.prefix_append _ _).isInfix
      · exact (subtrees_isInfix_all rest u hu).trans (List.suffix_append _ _).isInfix

end

/-- The trees in a tree stand in its order as a whole. -/
theorem preorder_isInfix {t u : SyntaxTree} (hu : u ∈ t.subtrees) : u.preorder <:+: t.preorder := by
  rw [← map_id_subtrees u, ← map_id_subtrees t]
  exact (subtrees_isInfix t u hu).map _

end SyntaxTree

namespace NodeTable

variable {g : NodeTable} {root : NodeId}

/-- Each node of the walk is the root of a tree in the unfolding. -/
theorem exists_mem_subtrees {p : NodeId} (hp : p ∈ g.walk root) :
    ∃ t ∈ (g.unfolding root).subtrees, t.id = p := by
  rwa [← preorder_unfolding, ← map_id_subtrees, List.mem_map] at hp

theorem id_unfolding (g : NodeTable) (root : NodeId) : (g.unfolding root).id = root := rfl

/-- **The parent of a node is the node above it in the unfolding.** -/
theorem parent?_eq_some_iff {p c : NodeId} :
    g.parent? root c = some p ↔
      ∃ t ∈ (g.unfolding root).subtrees, t.id = p ∧ ∃ u ∈ t.children, u.id = c := by
  constructor
  · intro h
    obtain ⟨-, -, hc⟩ := of_parent?_eq_some h
    rw [← preorder_unfolding] at hc
    rcases eq_id_or_child _ c hc with hroot | ⟨t, ht, u, hu, rfl⟩
    · rw [hroot, id_unfolding, parent?_root] at h
      cases h
    · have hp := parent?_of_mem_children ht hu
      rw [h] at hp
      exact ⟨t, ht, (Option.some.inj hp).symm, u, hu, rfl⟩
  · rintro ⟨t, ht, rfl, u, hu, rfl⟩
    exact parent?_of_mem_children ht hu

/-- The children of a node in the unfolding are those that the walk first reaches from it. -/
theorem map_id_children {t : SyntaxTree} (ht : t ∈ (g.unfolding root).subtrees) :
    t.children.map SyntaxTree.id = g.reachedFrom root t.id := by
  have hnodup := g.nodup_walk root
  have hsub : (t.children.map SyntaxTree.id).Sublist (g.walk root) := by
    rw [← preorder_unfolding]
    refine List.Sublist.trans ?_ (preorder_isInfix ht).sublist
    rw [preorder_eq]
    exact (map_id_sublist_preorderAll _).cons _
  rw [eq_filter_of_sublist hsub hnodup, reachedFrom]
  refine List.filter_congr fun c _ => ?_
  rw [decide_eq_decide, parent?_eq_some_iff, List.mem_map]
  constructor
  · exact fun hc => ⟨t, ht, rfl, hc⟩
  · rintro ⟨t', ht', hid, hc⟩
    -- nodes are entered once, so their trees are told apart by their roots
    rw [← preorder_unfolding, ← map_id_subtrees] at hnodup
    rwa [List.inj_on_of_nodup_map hnodup ht' ht hid] at hc

/-- What the walk first reaches from a node are the children of a tree in the unfolding, if anything. -/
theorem reachedFrom_eq_nil_or_map (g : NodeTable) (root p : NodeId) :
    g.reachedFrom root p = [] ∨
      ∃ t ∈ (g.unfolding root).subtrees, g.reachedFrom root p = t.children.map SyntaxTree.id := by
  by_cases hp : p ∈ g.walk root
  · obtain ⟨t, ht, rfl⟩ := exists_mem_subtrees hp
    exact Or.inr ⟨t, ht, (map_id_children ht).symm⟩
  · left
    rw [List.eq_nil_iff_forall_not_mem]
    intro c hc
    exact hp (of_parent?_eq_some (mem_reachedFrom.1 hc).2).1

end NodeTable

end SourceSpans
