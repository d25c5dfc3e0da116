import Mathlib.Logic.Relation
import SourceSpans.Proofs.Sequences
import SourceSpans.Proofs.Text.Places
import SourceSpans.Proofs.Tree.FirstVisit

/-!
# The walk is the depth-first visit

The walk keeps nodes on a stack that may have been visited by the time they are taken off it. What it
lists is still what the plain recursion lists, which visits one node after the other and hands on what has
been seen (`DepthFirst`).

* **Recursion and trees** (`depthFirst_iff_exists_visits`): a depth-first visit lists the nodes of the
  trees of first visits, of which `Visits.walkFrom_append` says that they are those of the walk, whatever
  else is on its stack. That there is such a visit of every root, also where nodes contain each other, is
  `NodeTable.visits_unfolding`.
* **Reachable nodes** (`NodeTable.mem_walk_iff`): what the visit lists can be reached, by induction on it,
  and all children of what it lists are listed.
* **Children** (`NodeTable.stablySorted_inPlaceOrder`): children by fields are sorted by their places,
  and stay as they are where one of them has none.
-/

namespace SourceSpans

open SyntaxTree (preorder preorderAll)

/-! ### The recursion -/

/-- The depth-first visit of several nodes, with the nodes that it lists and with what has been seen
before it and after it. A node that has been seen is passed over. Any other node counts as seen from then
on and is listed, then its children are visited, and then the nodes after it. -/
inductive DepthFirst (g : NodeTable) (shape : Shape) :
    (seen ids order seen' : List NodeId) → Prop
  | done (seen : List NodeId) : DepthFirst g shape seen [] [] seen
  | pass {seen rest order seen' : List NodeId} {id : NodeId} (h : id ∈ seen)
      (hrest : DepthFirst g shape seen rest order seen') :
      DepthFirst g shape seen (id :: rest) order seen'
  | enter {seen rest inner outer seen' seen'' : List NodeId} {id : NodeId} (h : id ∉ seen)
      (hinner : DepthFirst g shape (id :: seen) (g.children shape id) inner seen')
      (hrest : DepthFirst g shape seen' rest outer seen'') :
      DepthFirst g shape seen (id :: rest) (id :: inner ++ outer) seen''

variable {g : NodeTable} {shape : Shape} {root : NodeId} {seen ids order seen' : List NodeId}

/-- The trees of first visits, read in order, are a depth-first visit. -/
theorem Visits.depthFirst {trees : List SyntaxTree} (h : Visits g shape seen ids trees) :
    DepthFirst g shape seen ids (preorderAll trees) ((preorderAll trees).reverse ++ seen) := by
  induction h with
  | done seen => exact .done seen
  | pass h _ ih => exact .pass h ih
  | @enter seen rest id inner trees h _ _ ihinner ihrest =>
    have henter := DepthFirst.enter h ihinner ihrest
    simpa [preorderAll, preorder] using henter

namespace DepthFirst

/-- A depth-first visit enters trees of first visits. -/
theorem exists_visits (h : DepthFirst g shape seen ids order seen') :
    ∃ trees, Visits g shape seen ids trees ∧ preorderAll trees = order ∧
      seen' = order.reverse ++ seen := by
  induction h with
  | done seen => exact ⟨[], .done seen, rfl, rfl⟩
  | pass h _ ih =>
    obtain ⟨trees, hvisits, horder, hseen⟩ := ih
    exact ⟨trees, .pass h hvisits, horder, hseen⟩
  | @enter seen rest inner outer seen' seen'' id h _ _ ihinner ihrest =>
    obtain ⟨below, hbelow, rfl, rfl⟩ := ihinner
    obtain ⟨after, hafter, rfl, rfl⟩ := ihrest
    refine ⟨_, .enter h hbelow hafter, ?_, ?_⟩
    · simp [preorderAll, preorder]
    · simp

end DepthFirst

/-- **A depth-first visit lists the nodes of the trees of first visits.** -/
theorem depthFirst_iff_exists_visits :
    (∃ seen', DepthFirst g shape seen ids order seen') ↔
      ∃ trees, Visits g shape seen ids trees ∧ preorderAll trees = order := by
  constructor
  · rintro ⟨seen', h⟩
    obtain ⟨trees, hvisits, horder, -⟩ := h.exists_visits
    exact ⟨trees, hvisits, horder⟩
  · rintro ⟨trees, hvisits, rfl⟩
    exact ⟨_, hvisits.depthFirst⟩

namespace NodeTable

/-- The walk from a root is its depth-first visit, and the only one. -/
theorem depthFirst_iff_eq_walk :
    (∃ seen', DepthFirst g (g.shape root) [] [root] order seen') ↔ order = g.walk root := by
  rw [depthFirst_iff_exists_visits]
  constructor
  · rintro ⟨trees, hvisits, rfl⟩
    have hwalk := hvisits.walkFrom_append []
    rw [List.append_nil, walkFrom, List.append_nil] at hwalk
    exact hwalk.symm
  · rintro rfl
    refine ⟨_, g.visits_unfolding root, ?_⟩
    rw [preorderAll, preorderAll, List.append_nil, preorder_unfolding]

/-! ### Reachable nodes -/

/-- From the first node the second one is reached: it is the node itself, one of its children, a child
of these, and so on. -/
def Reaches (g : NodeTable) (shape : Shape) : NodeId → NodeId → Prop :=
  Relation.ReflTransGen fun u c => c ∈ g.children shape u

/-- What a depth-first visit lists is reached from the nodes that it visits. -/
theorem exists_reaches_of_depthFirst (h : DepthFirst g shape seen ids order seen') {x : NodeId}
    (hx : x ∈ order) : ∃ id ∈ ids, g.Reaches shape id x := by
  induction h with
  | done seen => exact absurd hx List.not_mem_nil
  | pass _ _ ih =>
    obtain ⟨id, hid, hreaches⟩ := ih hx
    exact ⟨id, List.mem_cons_of_mem _ hid, hreaches⟩
  | @enter seen rest inner outer seen' seen'' id _ _ _ ihinner ihrest =>
    rw [List.cons_append, List.mem_cons, List.mem_append] at hx
    rcases hx with rfl | hx | hx
    · exact ⟨x, List.mem_cons_self, .refl⟩
    · obtain ⟨c, hc, hreaches⟩ := ihinner hx
      exact ⟨id, List.mem_cons_self, .head hc hreaches⟩
    · obtain ⟨c, hc, hreaches⟩ := ihrest hx
      exact ⟨c, List.mem_cons_of_mem _ hc, hreaches⟩

theorem exists_walk_eq_cons (g : NodeTable) (root : NodeId) :
    ∃ rest, g.walk root = root :: rest := by
  rw [← preorder_unfolding, SyntaxTree.preorder_eq]
  exact ⟨_, rfl⟩

/-- **The walk visits the nodes that are reached from the root.** -/
theorem mem_walk_iff {id : NodeId} : id ∈ g.walk root ↔ g.Reaches (g.shape root) root id := by
  constructor
  · intro hid
    obtain ⟨seen', h⟩ := depthFirst_iff_eq_walk.2 (rfl : g.walk root = g.walk root)
    obtain ⟨c, hc, hreaches⟩ := exists_reaches_of_depthFirst h hid
    rwa [List.mem_singleton.1 hc] at hreaches
  · intro hreaches
    induction hreaches with
    | refl =>
      obtain ⟨rest, hwalk⟩ := g.exists_walk_eq_cons root
      rw [hwalk]
      exact List.mem_cons_self
    | tail _ hchild ih => exact mem_walk_of_mem_children ih hchild

/-! ### The order of children -/

/-- A list of nodes and the same nodes sorted by their places: an earlier place comes first, and nodes
with one place stay in the order that they have in the list. -/
structure StablySorted (g : NodeTable) (listed sorted : List NodeId) : Prop where
  perm : sorted.Perm listed
  pairwise : sorted.Pairwise fun a b =>
    ∃ p q, g.place? a = some p ∧ g.place? b = some q ∧ p.le q = true
  stable : ∀ p, (sorted.filter fun id => g.place? id = some p) =
    listed.filter fun id => g.place? id = some p

/-- Whether a node has no later place than another one. -/
def comesBefore (g : NodeTable) (a b : NodeId) : Bool :=
  ((g.place? a).getD Position.start).le ((g.place? b).getD Position.start)

/-- Nodes that all have places are sorted by them. -/
theorem stablySorted_inPlaceOrder {listed : List NodeId}
    (h : ∀ id ∈ listed, ∃ p, g.place? id = some p) :
    g.StablySorted listed (g.inPlaceOrder listed) := by
  have hall : (listed.all fun id => (g.place? id).isSome) = true := by
    rw [List.all_eq_true]
    intro id hid
    exact Option.isSome_iff_exists.2 (h id hid)
  have htrans : ∀ a b c, g.comesBefore a b → g.comesBefore b c → g.comesBefore a c :=
    fun a b c => Position.le_trans
  have htotal : ∀ a b, g.comesBefore a b || g.comesBefore b a := by
    intro a b
    rw [Bool.or_eq_true, comesBefore, comesBefore, Position.le_iff, Position.le_iff]
    omega
  have hsort : g.inPlaceOrder listed = listed.mergeSort g.comesBefore := if_pos hall
  rw [hsort]
  refine ⟨List.mergeSort_perm _ _, ?_, fun p => ?_⟩
  · refine (List.pairwise_mergeSort htrans htotal listed).imp_of_mem fun {a b} ha hb hab => ?_
    obtain ⟨p, hp⟩ := h a (List.mem_mergeSort.1 ha)
    obtain ⟨q, hq⟩ := h b (List.mem_mergeSort.1 hb)
    refine ⟨p, q, hp, hq, ?_⟩
    rwa [comesBefore, hp, hq] at hab
  · refine filter_mergeSort htrans htotal (fun a b ha hb => ?_) listed
    rw [decide_eq_true_eq] at ha hb
    rw [comesBefore, ha, hb]
    exact Position.le_refl p

/-- The nodes in the fields of a node, in the order in which the fields are declared. -/
def fieldNodes (g : NodeTable) (n : Node) : List NodeId :=
  (n.fields.flatMap fun f => f.2.toList).filter fun c => g.ids.contains c

theorem children_fields {id : NodeId} {n : Node} (h : g.node? id = some n) :
    g.children .fields id = g.inPlaceOrder (g.fieldNodes n) := by
  rw [children, h]
  rfl

/-- Nodes stay as they are listed if one of them has no place. -/
theorem inPlaceOrder_eq_self {listed : List NodeId} (h : ∃ id ∈ listed, g.place? id = none) :
    g.inPlaceOrder listed = listed := by
  obtain ⟨id, hid, hplace⟩ := h
  refine if_neg fun hall => ?_
  rw [List.all_eq_true] at hall
  have hsome := hall id hid
  rw [hplace] at hsome
  cases hsome

/-- **The walk is the depth-first visit of its root.** The recursion that passes over what has been seen,
and otherwise lists a node and goes on with its children, lists what the walk does: the root first, and
each node that is reached from it once. The children are the nodes that a node lists, or those in its
fields. The latter are sorted by their places if all of them have one, and otherwise stand as the fields
are declared. -/
theorem walk_is_depth_first (g : NodeTable) (root : NodeId) :
    (∀ order, (∃ seen, DepthFirst g (g.shape root) [] [root] order seen) ↔ order = g.walk root) ∧
      (∃ rest, g.walk root = root :: rest) ∧
      (∀ id, g.Reaches (g.shape root) root id → (g.walk root).count id = 1) ∧
      (∀ id ∈ g.walk root, g.Reaches (g.shape root) root id) ∧
      ∀ id n, g.node? id = some n →
        (g.children .ordered id = (n.children?.getD []).filter fun c => g.ids.contains c) ∧
        ((∀ c ∈ g.fieldNodes n, ∃ p, g.place? c = some p) →
          g.StablySorted (g.fieldNodes n) (g.children .fields id)) ∧
        ((∃ c ∈ g.fieldNodes n, g.place? c = none) → g.children .fields id = g.fieldNodes n) := by
  refine ⟨fun order => depthFirst_iff_eq_walk, g.exists_walk_eq_cons root, ?_, ?_, ?_⟩
  · intro id hreaches
    exact List.count_eq_one_of_mem (g.nodup_walk root) (mem_walk_iff.2 hreaches)
  · intro id hid
    exact mem_walk_iff.1 hid
  · intro id n hn
    rw [children_fields hn]
    exact ⟨by rw [children, hn], stablySorted_inPlaceOrder, inPlaceOrder_eq_self⟩

/-- A call with a starred argument and, before it at one place, two keywords. The first keyword has the
argument for its value, and the value of the argument is the call again. -/
def keywordCall : NodeTable where
  nodes := [
    (1, ⟨"Call", none, [("args", .nodes [2]), ("keywords", .nodes [3, 4])], none, none⟩),
    (2, ⟨"Starred", none, [("value", .node 1)], some ⟨1, 7⟩, none⟩),
    (3, ⟨"keyword", none, [("value", .node 2)], some ⟨1, 2⟩, none⟩),
    (4, ⟨"keyword", none, [], some ⟨1, 2⟩, none⟩)]

example : keywordCall.walk 1 = [1, 3, 2, 4] := by
  cbv

end NodeTable

end SourceSpans
