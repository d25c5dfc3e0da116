import SourceSpans.Proofs.Tree.FirstVisit

/-!
# Adopted children

Another way to visit the nodes under a root takes a node off a stack, the one put there last, and
puts all of its children there that have not been put there before: the node *adopts* them
(`NodeTable.adoptions`). Where nodes are shared, a node may be adopted by another node than the one
from which the walk first reaches it, its parent.

* **Order** (`adopted_sublist_reachedFrom`): a node that adopts only children of which it is the
  parent adopts them in the order of the walk.
* **Parents** (`parent?_of_mem_adoptions`): if whoever lists a node lies under the parent of this
  node, as in trees (`listedUnderParents_of_unique`), nodes are adopted by their parents only.
-/

namespace SourceSpans.NodeTable

variable {g : NodeTable} {shape : Shape}

/-! ### New nodes -/

/-- The nodes of a list that have not been seen, each at its first place. -/
def newIn : (seen ids : List NodeId) → List NodeId
  | _, [] => []
  | seen, id :: rest =>
      if seen.contains id then newIn seen rest else id :: newIn (id :: seen) rest

theorem newIn_cons_of_mem {seen : List NodeId} {id : NodeId} (h : id ∈ seen) (ids : List NodeId) :
    newIn seen (id :: ids) = newIn seen ids := by
  rw [newIn, if_pos (by simpa using h)]

theorem newIn_cons_of_not_mem {seen : List NodeId} {id : NodeId} (h : id ∉ seen)
    (ids : List NodeId) : newIn seen (id :: ids) = id :: newIn (id :: seen) ids := by
  rw [newIn, if_neg (by simpa using h)]

theorem mem_newIn {seen ids : List NodeId} {x : NodeId} : x ∈ newIn seen ids ↔ x ∈ ids ∧ x ∉ seen := by
  induction ids generalizing seen with
  | nil => simp [newIn]
  | cons id ids ih =>
    by_cases hid : id ∈ seen
    · rw [newIn_cons_of_mem hid, ih, List.mem_cons]
      refine ⟨fun h => ⟨Or.inr h.1, h.2⟩, ?_⟩
      rintro ⟨rfl | h, hx⟩
      · exact absurd hid hx
      · exact ⟨h, hx⟩
    · rw [newIn_cons_of_not_mem hid, List.mem_cons, ih, List.mem_cons, List.mem_cons, not_or]
      constructor
      · rintro (rfl | ⟨h, -, hx⟩)
        · exact ⟨Or.inl rfl, hid⟩
        · exact ⟨Or.inr h, hx⟩
      · rintro ⟨rfl | h, hx⟩
        · exact Or.inl rfl
        · by_cases heq : x = id
          · exact Or.inl heq
          · exact Or.inr ⟨h, heq, hx⟩

theorem nodup_newIn (seen ids : List NodeId) : (newIn seen ids).Nodup := by
  induction ids generalizing seen with
  | nil => exact List.nodup_nil
  | cons id ids ih =>
    by_cases hid : id ∈ seen
    · rw [newIn_cons_of_mem hid]
      exact ih seen
    · rw [newIn_cons_of_not_mem hid]
      exact List.nodup_cons.2 ⟨fun h => (mem_newIn.1 h).2 List.mem_cons_self, ih _⟩

theorem newIn_eq_self {seen ids : List NodeId} (hnodup : ids.Nodup) (hnew : ∀ x ∈ ids, x ∉ seen) :
    newIn seen ids = ids := by
  induction ids generalizing seen with
  | nil => rfl
  | cons id ids ih =>
    obtain ⟨hid, hnodup⟩ := List.nodup_cons.1 hnodup
    rw [newIn_cons_of_not_mem (hnew id List.mem_cons_self), ih hnodup]
    intro x hx
    rw [List.mem_cons, not_or]
    exact ⟨ne_of_mem_of_not_mem hx hid, hnew x (List.mem_cons_of_mem _ hx)⟩

/-- The more has been seen, the fewer nodes are new. -/
theorem newIn_sublist {seen seen' : List NodeId} (h : ∀ x ∈ seen, x ∈ seen') (ids : List NodeId) :
    (newIn seen' ids).Sublist (newIn seen ids) := by
  induction ids generalizing seen seen' with
  | nil => exact List.Sublist.slnil
  | cons id ids ih =>
    by_cases hid : id ∈ seen
    · rw [newIn_cons_of_mem hid, newIn_cons_of_mem (h id hid)]
      exact ih h
    · rw [newIn_cons_of_not_mem hid]
      by_cases hid' : id ∈ seen'
      · rw [newIn_cons_of_mem hid']
        refine (ih fun x hx => ?_).cons _
        rcases List.mem_cons.1 hx with rfl | hx
        · exact hid'
        · exact h x hx
      · rw [newIn_cons_of_not_mem hid']
        refine (ih fun x hx => ?_).cons_cons _
        rcases List.mem_cons.1 hx with rfl | hx
        · exact List.mem_cons_self
        · exact List.mem_cons_of_mem _ (h x hx)

/-- New nodes are among those that had not been seen. -/
theorem unseen_newIn_add_length_le {seen ids : List NodeId} (h : ∀ id ∈ ids, id ∈ g.ids) :
    g.unseen ((newIn seen ids).reverse ++ seen) + (newIn seen ids).length ≤ g.unseen seen := by
  induction ids generalizing seen with
  | nil => exact Nat.le_refl _
  | cons id ids ih =>
    have hrest : ∀ x ∈ ids, x ∈ g.ids := fun x hx => h x (List.mem_cons_of_mem _ hx)
    by_cases hid : id ∈ seen
    · rw [newIn_cons_of_mem hid]
      exact ih hrest
    · have hlt : g.unseen (id :: seen) < g.unseen seen :=
        unseen_cons_lt (h id List.mem_cons_self) (by simpa using hid)
      have hle := @ih (id :: seen) hrest
      rw [newIn_cons_of_not_mem hid, List.reverse_cons, List.append_assoc, List.singleton_append, List.length_cons]
      omega

/-! ### Adoptions -/

/-- The nodes taken off a stack, each with the children that it adopts. -/
def adoptionsFrom (g : NodeTable) (shape : Shape) :
    (seen stack : List NodeId) → List (NodeId × List NodeId)
  | _, [] => []
  | seen, id :: stack =>
      let adopted := newIn seen (g.children shape id)
      (id, adopted) :: adoptionsFrom g shape (adopted.reverse ++ seen) (adopted.reverse ++ stack)
termination_by seen stack => g.unseen seen + stack.length
decreasing_by
  have hle : g.unseen ((newIn seen (g.children shape id)).reverse ++ seen) +
      (newIn seen (g.children shape id)).length ≤ g.unseen seen :=
    unseen_newIn_add_length_le fun c hc => mem_ids_of_mem_children hc
  rw [List.length_append, List.length_reverse, List.length_cons]
  omega

/-- The nodes under a root, each with the children that it adopts. -/
def adoptions (g : NodeTable) (root : NodeId) : List (NodeId × List NodeId) :=
  g.adoptionsFrom (g.shape root) [root] [root]

theorem mem_walk_self (g : NodeTable) (root : NodeId) : root ∈ g.walk root := by
  rw [← preorder_unfolding]
  exact SyntaxTree.id_mem_preorder _

/-- Whoever adopts is a node of the walk, and adopts children of its own that are new to it. -/
theorem of_mem_adoptionsFrom {root : NodeId} {seen stack : List NodeId}
    (hstack : ∀ u ∈ stack, u ∈ g.walk root) {p : NodeId} {adopted : List NodeId}
    (h : (p, adopted) ∈ g.adoptionsFrom (g.shape root) seen stack) :
    p ∈ g.walk root ∧ ∃ seen', adopted = newIn seen' (g.children (g.shape root) p) := by
  fun_induction adoptionsFrom g (g.shape root) seen stack with
  | case1 => exact absurd h List.not_mem_nil
  | case2 seen id stack adopted' ih =>
    rcases List.mem_cons.1 h with heq | h
    · obtain ⟨rfl, rfl⟩ := Prod.mk.inj heq
      exact ⟨hstack p List.mem_cons_self, seen, rfl⟩
    · refine ih (fun u hu => ?_) h
      rcases List.mem_append.1 hu with hu | hu
      · have hchild := (mem_newIn.1 (List.mem_reverse.1 hu)).1
        exact mem_walk_of_mem_children (hstack id List.mem_cons_self) hchild
      · exact hstack u (List.mem_cons_of_mem _ hu)

theorem of_mem_adoptions {root p : NodeId} {adopted : List NodeId}
    (h : (p, adopted) ∈ g.adoptions root) :
    p ∈ g.walk root ∧ ∃ seen, adopted = newIn seen (g.children (g.shape root) p) := by
  refine of_mem_adoptionsFrom (fun u hu => ?_) h
  rw [List.mem_singleton.1 hu]
  exact g.mem_walk_self root

/-- Whoever adopts has been on the stack from the start, or has been adopted before. -/
theorem mem_or_adopted_of_adoptionsFrom_eq {seen stack : List NodeId}
    {later : List (NodeId × List NodeId)} {x : NodeId × List NodeId}
    (done : List (NodeId × List NodeId))
    (h : g.adoptionsFrom shape seen stack = done ++ x :: later) :
    x.1 ∈ stack ∨ ∃ y ∈ done, x.1 ∈ y.2 := by
  fun_induction adoptionsFrom g shape seen stack generalizing done with
  | case1 => cases done <;> cases h
  | case2 seen id stack adopted ih =>
    rcases done with _ | ⟨y, done⟩
    · obtain ⟨rfl, -⟩ := List.cons_eq_cons.1 h
      exact Or.inl List.mem_cons_self
    · obtain ⟨rfl, hrest⟩ := List.cons_eq_cons.1 h
      rcases ih done hrest with hstack | ⟨z, hz, hx⟩
      · rcases List.mem_append.1 hstack with hx | hx
        · exact Or.inr ⟨_, List.mem_cons_self, List.mem_reverse.1 hx⟩
        · exact Or.inl (List.mem_cons_of_mem _ hx)
      · exact Or.inr ⟨z, List.mem_cons_of_mem _ hz, hx⟩

/-- Whatever is on the stack has its turn. -/
theorem exists_mem_adoptionsFrom {seen stack : List NodeId} {p : NodeId} (hp : p ∈ stack) :
    ∃ adopted, (p, adopted) ∈ g.adoptionsFrom shape seen stack := by
  fun_induction adoptionsFrom g shape seen stack with
  | case1 => exact absurd hp List.not_mem_nil
  | case2 seen id stack adopted ih =>
    rcases List.mem_cons.1 hp with rfl | hp
    · exact ⟨adopted, List.mem_cons_self⟩
    · obtain ⟨adopted', h⟩ := ih (List.mem_append_right _ hp)
      exact ⟨adopted', List.mem_cons_of_mem _ h⟩

/-- Whoever is adopted has its turn to adopt. -/
theorem exists_mem_adoptionsFrom_of_adopted {seen stack : List NodeId} {p c : NodeId}
    {adopted : List NodeId} (h : (p, adopted) ∈ g.adoptionsFrom shape seen stack)
    (hc : c ∈ adopted) : ∃ adopted', (c, adopted') ∈ g.adoptionsFrom shape seen stack := by
  fun_induction adoptionsFrom g shape seen stack with
  | case1 => exact absurd h List.not_mem_nil
  | case2 seen id stack adopted' ih =>
    have hlater : ∃ later, (c, later) ∈ g.adoptionsFrom shape (adopted'.reverse ++ seen)
        (adopted'.reverse ++ stack) := by
      rcases List.mem_cons.1 h with heq | h
      · obtain ⟨rfl, rfl⟩ := Prod.mk.inj heq
        exact exists_mem_adoptionsFrom (List.mem_append_left _ (List.mem_reverse.2 hc))
      · exact ih h
    obtain ⟨later, hlater⟩ := hlater
    exact ⟨later, List.mem_cons_of_mem _ hlater⟩

/-! ### The order of adopted children -/

/-- The trees that are entered stand in the order in which their roots are listed first. -/
theorem map_id_sublist_newIn {seen ids : List NodeId} {trees : List SyntaxTree}
    (h : Visits g shape seen ids trees) {seen' : List NodeId} (hseen : ∀ x ∈ seen', x ∈ seen) :
    (trees.map SyntaxTree.id).Sublist (newIn seen' ids) := by
  induction h generalizing seen' with
  | done seen => exact List.Sublist.slnil
  | @pass seen rest id trees hid _ ih =>
    by_cases hid' : id ∈ seen'
    · rw [newIn_cons_of_mem hid']
      exact ih hseen
    · rw [newIn_cons_of_not_mem hid']
      refine (ih fun x hx => ?_).cons _
      rcases List.mem_cons.1 hx with rfl | hx
      · exact hid
      · exact hseen x hx
  | @enter seen rest id inner trees hid _ _ _ ih =>
    rw [newIn_cons_of_not_mem fun hid' => hid (hseen id hid'), List.map_cons]
    refine (ih fun x hx => List.mem_append_right _ ?_).cons_cons _
    rcases List.mem_cons.1 hx with rfl | hx
    · exact List.mem_cons_self
    · exact List.mem_cons_of_mem _ (hseen x hx)

/-- The walk reaches the children of a node in the order in which the node lists them. -/
theorem reachedFrom_sublist_newIn {root p : NodeId} (hp : p ∈ g.walk root) :
    (g.reachedFrom root p).Sublist (newIn [] (g.children (g.shape root) p)) := by
  obtain ⟨t, ht, rfl⟩ := exists_mem_subtrees hp
  obtain ⟨before, after, -, hvisits⟩ := exists_visits_of_mem_subtrees ht
  rw [← map_id_children ht]
  exact map_id_sublist_newIn hvisits nofun

/-- New nodes come in the order of the walk if they are children of the node that lists them. -/
theorem newIn_sublist_reachedFrom {root p : NodeId} {seen : List NodeId} (hwalk : p ∈ g.walk root)
    (hp : ∀ c ∈ newIn seen (g.children (g.shape root) p), g.parent? root c = some p) :
    (newIn seen (g.children (g.shape root) p)).Sublist (g.reachedFrom root p) := by
  have hlisted : (newIn seen (g.children (g.shape root) p)).Sublist
      (newIn [] (g.children (g.shape root) p)) :=
    newIn_sublist (fun x hx => absurd hx List.not_mem_nil) _
  have hreached := reachedFrom_sublist_newIn hwalk
  have hnodup := nodup_newIn [] (g.children (g.shape root) p)
  generalize newIn seen (g.children (g.shape root) p) = adopted at *
  -- both are picked out of the children of `p` by their members
  have hmem : ∀ c ∈ adopted, c ∈ g.reachedFrom root p := fun c hc =>
    mem_reachedFrom.2 ⟨(of_parent?_eq_some (hp c hc)).2.2, hp c hc⟩
  rw [eq_filter_of_sublist hlisted hnodup, eq_filter_of_sublist hreached hnodup]
  refine List.monotone_filter_right _ fun c hc => ?_
  simpa using hmem c (by simpa using hc)

/-- **A parent adopts its children in the order of the walk.** -/
theorem adopted_sublist_reachedFrom {root p : NodeId} {adopted : List NodeId}
    (h : (p, adopted) ∈ g.adoptions root) (hp : ∀ c ∈ adopted, g.parent? root c = some p) :
    adopted.Sublist (g.reachedFrom root p) := by
  obtain ⟨hwalk, seen, rfl⟩ := of_mem_adoptions h
  exact newIn_sublist_reachedFrom hwalk hp

/-! ### Adoption by parents -/

/-- A node is another one or has it among its parents, their parents and so on. -/
inductive LiesUnder (g : NodeTable) (root p : NodeId) : NodeId → Prop
  | self : LiesUnder g root p p
  | child {u c : NodeId} (h : g.parent? root c = some u) (hu : LiesUnder g root p u) :
      LiesUnder g root p c

/-- Whoever lists a node lies under the parent of this node. -/
def ListedUnderParents (g : NodeTable) (root : NodeId) : Prop :=
  ∀ u ∈ g.walk root, ∀ c ∈ g.children (g.shape root) u, ∀ p, g.parent? root c = some p →
    g.LiesUnder root p u

/-- In a tree no node is listed twice. -/
theorem listedUnderParents_of_unique {root : NodeId}
    (h : ∀ u ∈ g.walk root, ∀ v ∈ g.walk root, ∀ c, c ∈ g.children (g.shape root) u →
      c ∈ g.children (g.shape root) v → u = v) : g.ListedUnderParents root := by
  intro u hu c hc p hp
  obtain ⟨hpwalk, hpchild, -⟩ := of_parent?_eq_some hp
  rw [h u hu p hpwalk c hc hpchild]
  exact .self

theorem exists_parent? {root c : NodeId} (hc : c ∈ g.walk root) (hne : c ≠ root) :
    ∃ p, g.parent? root c = some p := by
  rw [← preorder_unfolding] at hc
  rcases SyntaxTree.eq_id_or_child _ c hc with heq | ⟨t, ht, u, hu, rfl⟩
  · exact absurd heq hne
  · exact ⟨t.id, parent?_of_mem_children ht hu⟩

/-- While nodes are adopted by their parents, the parents of all nodes seen have been taken off the
stack, and with a node that has been taken off it all of its children have been seen. -/
structure Adopting (g : NodeTable) (root : NodeId) (seen stack : List NodeId) : Prop where
  root_mem : root ∈ seen
  nodup : stack.Nodup
  stack_subset : ∀ u ∈ stack, u ∈ seen
  seen_subset : ∀ u ∈ seen, u ∈ g.walk root
  parent_done : ∀ x ∈ seen, ∀ q, g.parent? root x = some q → q ∈ seen ∧ q ∉ stack
  children_seen : ∀ u ∈ seen, u ∉ stack → ∀ c ∈ g.children (g.shape root) u, c ∈ seen

namespace Adopting

variable {root u : NodeId} {seen stack : List NodeId}

theorem start (g : NodeTable) (root : NodeId) : g.Adopting root [root] [root] := by
  refine ⟨List.mem_cons_self, List.nodup_singleton _, fun u hu => hu, ?_, ?_, ?_⟩
  · intro u hu
    rw [List.mem_singleton.1 hu]
    exact g.mem_walk_self root
  · intro x hx q hq
    rw [List.mem_singleton.1 hx, parent?_root] at hq
    cases hq
  · exact fun u hu hnot => absurd hu hnot

theorem done_of_liesUnder (h : g.Adopting root seen stack) {p x : NodeId} (hx : x ∈ seen)
    (hunder : g.LiesUnder root p x) : x = p ∨ p ∈ seen ∧ p ∉ stack := by
  induction hunder with
  | self => exact Or.inl rfl
  | child hparent _ ih =>
    obtain ⟨hseen, hdone⟩ := h.parent_done _ hx _ hparent
    rcases ih hseen with rfl | hp
    · exact Or.inr ⟨hseen, hdone⟩
    · exact Or.inr hp

/-- A node that is new to one that lists it has this one as its parent: a parent further up has been
taken off the stack before and has had the node seen. -/
theorem parent?_of_mem_newIn (h : g.Adopting root seen (u :: stack))
    (hg : g.ListedUnderParents root) {c : NodeId}
    (hc : c ∈ newIn seen (g.children (g.shape root) u)) : g.parent? root c = some u := by
  obtain ⟨hchild, hnew⟩ := mem_newIn.1 hc
  have hu : u ∈ seen := h.stack_subset u List.mem_cons_self
  have hwalk := mem_walk_of_mem_children (h.seen_subset u hu) hchild
  have hne : c ≠ root := fun heq => hnew (heq ▸ h.root_mem)
  obtain ⟨p, hp⟩ := exists_parent? hwalk hne
  rcases h.done_of_liesUnder hu (hg u (h.seen_subset u hu) c hchild p hp) with rfl | ⟨hseen, hdone⟩
  · exact hp
  · exact absurd (h.children_seen p hseen hdone c (of_parent?_eq_some hp).2.1) hnew

theorem adopt (h : g.Adopting root seen (u :: stack))
    (hparent : ∀ c ∈ newIn seen (g.children (g.shape root) u), g.parent? root c = some u) :
    g.Adopting root ((newIn seen (g.children (g.shape root) u)).reverse ++ seen)
      ((newIn seen (g.children (g.shape root) u)).reverse ++ stack) := by
  have hnew : ∀ c ∈ newIn seen (g.children (g.shape root) u),
      c ∈ g.children (g.shape root) u ∧ c ∉ seen := fun c hc => mem_newIn.1 hc
  have hall : ∀ c ∈ g.children (g.shape root) u, c ∉ seen →
      c ∈ newIn seen (g.children (g.shape root) u) := fun c hc hns => mem_newIn.2 ⟨hc, hns⟩
  have hnodup := nodup_newIn seen (g.children (g.shape root) u)
  generalize newIn seen (g.children (g.shape root) u) = adopted at *
  have hu : u ∈ seen := h.stack_subset u List.mem_cons_self
  have hstack : ∀ x ∈ stack, x ∈ seen := fun x hx =>
    h.stack_subset x (List.mem_cons_of_mem _ hx)
  obtain ⟨hustack, hnodup'⟩ := List.nodup_cons.1 h.nodup
  -- what had been seen is on the new stack only if it was on the old one
  have hold : ∀ x ∈ seen, x ∉ stack → x ∉ adopted.reverse ++ stack := by
    intro x hx hns hmem
    rcases List.mem_append.1 hmem with hmem | hmem
    · exact (hnew x (List.mem_reverse.1 hmem)).2 hx
    · exact hns hmem
  refine ⟨List.mem_append_right _ h.root_mem, ?_, ?_, ?_, ?_, ?_⟩
  · refine List.nodup_append'.2 ⟨List.nodup_reverse.2 hnodup, hnodup', fun x hx hx' => ?_⟩
    exact (hnew x (List.mem_reverse.1 hx)).2 (hstack x hx')
  · intro x hx
    rcases List.mem_append.1 hx with hx | hx
    · exact List.mem_append_left _ hx
    · exact List.mem_append_right _ (hstack x hx)
  · intro x hx
    rcases List.mem_append.1 hx with hx | hx
    · exact mem_walk_of_mem_children (h.seen_subset u hu) (hnew x (List.mem_reverse.1 hx)).1
    · exact h.seen_subset x hx
  · intro x hx q hq
    rcases List.mem_append.1 hx with hx | hx
    · obtain rfl := Option.some.inj (hq.symm.trans (hparent x (List.mem_reverse.1 hx)))
      exact ⟨List.mem_append_right _ hu, hold q hu hustack⟩
    · obtain ⟨hqseen, hqstack⟩ := h.parent_done x hx q hq
      exact ⟨List.mem_append_right _ hqseen,
        hold q hqseen fun hq' => hqstack (List.mem_cons_of_mem _ hq')⟩
  · intro x hx hxstack c hc
    rcases List.mem_append.1 hx with hx | hx
    · exact absurd (List.mem_append_left _ hx) hxstack
    by_cases hxu : x = u
    · subst hxu
      by_cases hcs : c ∈ seen
      · exact List.mem_append_right _ hcs
      · exact List.mem_append_left _ (List.mem_reverse.2 (hall c hc hcs))
    · have hxold : x ∉ u :: stack := by
        rw [List.mem_cons, not_or]
        exact ⟨hxu, fun hxs => hxstack (List.mem_append_right _ hxs)⟩
      exact List.mem_append_right _ (h.children_seen x hx hxold c hc)

end Adopting

/-- If whoever lists a node lies under its parent, the state in which a node adopts is one of adoption by
parents. -/
theorem exists_adopting_of_mem_adoptions {root : NodeId} (hg : g.ListedUnderParents root) {p : NodeId}
    {adopted : List NodeId} (h : (p, adopted) ∈ g.adoptions root) :
    ∃ seen stack, g.Adopting root seen (p :: stack) ∧
      adopted = newIn seen (g.children (g.shape root) p) := by
  have hrun : ∀ seen stack, g.Adopting root seen stack →
      (p, adopted) ∈ g.adoptionsFrom (g.shape root) seen stack →
      ∃ seen stack, g.Adopting root seen (p :: stack) ∧
        adopted = newIn seen (g.children (g.shape root) p) := by
    intro seen stack hstate h
    fun_induction adoptionsFrom g (g.shape root) seen stack with
    | case1 => exact absurd h List.not_mem_nil
    | case2 seen id stack adopted' ih =>
      rcases List.mem_cons.1 h with heq | h
      · obtain ⟨rfl, rfl⟩ := Prod.mk.inj heq
        exact ⟨seen, stack, hstate, rfl⟩
      · exact ih (hstate.adopt fun c hc => hstate.parent?_of_mem_newIn hg hc) h
  exact hrun [root] [root] (.start g root) h

/-- **If whoever lists a node lies under its parent, then nodes are adopted by their parents only.** -/
theorem parent?_of_mem_adoptions {root : NodeId} (hg : g.ListedUnderParents root) {p : NodeId}
    {adopted : List NodeId} (h : (p, adopted) ∈ g.adoptions root) :
    ∀ c ∈ adopted, g.parent? root c = some p := by
  obtain ⟨seen, stack, hstate, rfl⟩ := exists_adopting_of_mem_adoptions hg h
  exact fun c hc => hstate.parent?_of_mem_newIn hg hc

end SourceSpans.NodeTable
