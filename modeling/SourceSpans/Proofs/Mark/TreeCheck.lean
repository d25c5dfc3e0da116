import SourceSpans.Proofs.Mark.Lookups
import SourceSpans.Proofs.Tree.Trees

/-!
# What the check tells of a tree

The check compares a node with whoever adopts it and with those adopted just before it. In a tree these are
its parent and the previous child of the parent, so that the check says what its conditions say, for any
ranges (`verify_of_isTree`).

* **Success** (`Annotated.verify_eq_ok_iff_wellPlaced`): all nodes of the tree are placed well.
* **Failure** (`Annotated.isOf_of_verify_eq_error`): what is reported is so. A node that starts too early
  has a sibling before it, since it lies in its parent.
* **Apart** (`Annotated.offsets_apart`): nodes neither of which is above the other one are apart. The
  induction goes down to the first of them. If the other one is not below its parent either, they are apart
  because the parent is; otherwise the other one is in a sibling.
-/

namespace SourceSpans

/-- The nodes under a root have ranges, lie in their parents, and start where the previous child of the
parent stops or after it. -/
structure Annotated.WellPlaced (a : Annotated) (g : NodeTable) (root : NodeId) : Prop where
  marked : ∀ id ∈ g.walk root, ∃ span, a.textRange id = .ok span
  inside : ∀ p ∈ g.walk root, ∀ c ∈ g.children (g.shape root) p, ∀ outer inner,
    a.textRange p = .ok outer → a.textRange c = .ok inner → outer.1 ≤ inner.1 ∧ inner.2 ≤ outer.2
  inTurn : ∀ p ∈ g.walk root, ∀ before b c after,
    g.children (g.shape root) p = before ++ b :: c :: after → ∀ previous next,
      a.textRange b = .ok previous → a.textRange c = .ok next → previous.2 ≤ next.1

/-- What a violation says of the nodes under a root is so. The node is there, of this kind and at these
offsets, and it has no range, is not inside the parent that lists it, or starts before the child stops that
its parent lists just before it. -/
def RangeViolation.IsOf (a : Annotated) (g : NodeTable) (root : NodeId) : RangeViolation → Prop
  | notMarked node kind =>
      node ∈ g.walk root ∧ kind = g.kind node ∧ a.textRange node = .error (.notMarked node)
  | outsideParent node kind start stop parentStart parentStop =>
      kind = g.kind node ∧ a.textRange node = .ok (start, stop) ∧
        ∃ parent ∈ g.walk root, node ∈ g.children (g.shape root) parent ∧
          a.textRange parent = .ok (parentStart, parentStop) ∧
          (start < parentStart ∨ parentStop < stop)
  | siblingOverlap node kind start previousStop =>
      kind = g.kind node ∧ (∃ stop, a.textRange node = .ok (start, stop)) ∧
        ∃ parent ∈ g.walk root, ∃ before sibling after,
          g.children (g.shape root) parent = before ++ sibling :: node :: after ∧
          (∃ siblingStart, a.textRange sibling = .ok (siblingStart, previousStop)) ∧
          start < previousStop

namespace Annotated

variable {a : Annotated} {g : NodeTable} {root : NodeId}

theorem textRange_eq_error {id : NodeId} (h : a.ranges.get? id = none) :
    a.textRange id = .error (.notMarked id) := by
  rw [textRange, range, h]
  rfl

theorem textRange_eq_ok_iff {id : NodeId} {span : Nat × Nat} :
    a.textRange id = .ok span ↔ (∃ r, a.ranges.get? id = some r) ∧ a.offsets id = span := by
  rcases h : a.ranges.get? id with _ | r
  · rw [textRange_eq_error h]
    constructor
    · intro hok
      cases hok
    · rintro ⟨⟨r, hr⟩, -⟩
      cases hr
  · rw [textRange_eq_ok h, Except.ok.injEq]
    exact ⟨fun heq => ⟨⟨r, rfl⟩, heq⟩, fun heq => heq.2⟩

/-- In a tree nothing is wrong if all nodes are marked and the children of each lie in it in turn. -/
theorem verify_eq_ok_iff_of_isTree (h : g.IsTree root) :
    a.verify g root = .ok () ↔ (∀ id ∈ g.walk root, ∃ r, a.ranges.get? id = some r) ∧
      ∀ p ∈ g.walk root, a.LieIn (a.offsets p) (a.offsets p).1 (g.children (g.shape root) p) := by
  rw [verify_eq_ok_iff_violation?, violation?_eq_none_iff]
  constructor
  · rintro ⟨hroot, hall⟩
    have hfamily := fun p (hp : p ∈ g.walk root) =>
      hall (p, g.children (g.shape root) p) (h.mem_adoptions_iff.2 ⟨hp, rfl⟩)
    refine ⟨fun id hid => ?_, fun p hp => (hfamily p hp).2⟩
    rcases (NodeTable.mem_walk_iff.1 hid).cases_tail with rfl | ⟨p, hp, hchild⟩
    · exact hroot
    · exact (hfamily p (NodeTable.mem_walk_iff.2 hp)).1 id hchild
  · rintro ⟨hmarked, hlies⟩
    refine ⟨hmarked root (g.mem_walk_self root), ?_⟩
    rintro ⟨p, adopted⟩ hadopted
    obtain ⟨hp, rfl⟩ := h.mem_adoptions_iff.1 hadopted
    exact ⟨fun id hid => hmarked id (NodeTable.mem_walk_of_mem_children hp hid), hlies p hp⟩

/-- **The check of a tree succeeds if its nodes are placed well**, and only then. -/
theorem verify_eq_ok_iff_wellPlaced (h : g.IsTree root) :
    a.verify g root = .ok () ↔ a.WellPlaced g root := by
  rw [verify_eq_ok_iff_of_isTree h]
  constructor
  · rintro ⟨hmarked, hlies⟩
    refine ⟨fun id hid => ⟨_, textRange_eq_ok_iff.2 ⟨hmarked id hid, rfl⟩⟩, ?_, ?_⟩
    · intro p hp c hc outer inner houter hinner
      rw [← (textRange_eq_ok_iff.1 houter).2, ← (textRange_eq_ok_iff.1 hinner).2]
      exact (lieIn_iff.1 (hlies p hp)).1 c hc
    · intro p hp before b c after hsplit previous next hprevious hnext
      rw [← (textRange_eq_ok_iff.1 hprevious).2, ← (textRange_eq_ok_iff.1 hnext).2]
      exact List.isChain_iff_forall_rel_of_append_cons_cons.1 (lieIn_iff.1 (hlies p hp)).2 hsplit
  · intro hwell
    have hmarked : ∀ id ∈ g.walk root, ∃ r, a.ranges.get? id = some r := by
      intro id hid
      obtain ⟨span, hspan⟩ := hwell.marked id hid
      exact (textRange_eq_ok_iff.1 hspan).1
    have hspan : ∀ id ∈ g.walk root, a.textRange id = .ok (a.offsets id) := fun id hid =>
      textRange_eq_ok_iff.2 ⟨hmarked id hid, rfl⟩
    refine ⟨hmarked, fun p hp => lieIn_iff.2 ⟨fun c hc => ?_, ?_⟩⟩
    · exact hwell.inside p hp c hc _ _ (hspan p hp)
        (hspan c (NodeTable.mem_walk_of_mem_children hp hc))
    · rw [List.isChain_iff_forall_rel_of_append_cons_cons]
      intro b c before after hsplit
      have hchild : ∀ x ∈ [b, c], x ∈ g.walk root := by
        intro x hx
        refine NodeTable.mem_walk_of_mem_children hp ?_
        rw [hsplit]
        simp at hx ⊢
        tauto
      exact hwell.inTurn p hp before b c after hsplit _ _ (hspan b (hchild b (by simp)))
        (hspan c (hchild c (by simp)))

/-- **What the check of a tree reports is so.** -/
theorem isOf_of_verify_eq_error (h : g.IsTree root) {v : RangeViolation}
    (herror : a.verify g root = .error v) : v.IsOf a g root := by
  rcases exists_of_violation?_eq_some (verify_eq_error_iff.1 herror) with
    ⟨hnone, rfl⟩ | ⟨p, adopted, hadopted, hmarkedp, hfamily⟩
  · exact ⟨g.mem_walk_self root, rfl, textRange_eq_error hnone⟩
  obtain ⟨hp, rfl⟩ := h.mem_adoptions_iff.1 hadopted
  obtain ⟨before, c, after, hsplit, hbefore, hc⟩ := exists_of_familyViolation?_eq_some hfamily
  have hchild : c ∈ g.children (g.shape root) p := by
    rw [hsplit]
    exact List.mem_append_right _ List.mem_cons_self
  rcases hc with ⟨hnone, rfl⟩ | ⟨hmarkedc, hviolation⟩
  · exact ⟨NodeTable.mem_walk_of_mem_children hp hchild, rfl, textRange_eq_error hnone⟩
  have hspanc := textRange_eq_ok_iff.2 ⟨hmarkedc, rfl⟩
  unfold childViolation? at hviolation
  split_ifs at hviolation with houtside hoverlap
  · obtain rfl := Option.some.inj hviolation
    exact ⟨rfl, hspanc, p, hp, hchild, textRange_eq_ok_iff.2 ⟨hmarkedp, rfl⟩, houtside⟩
  · obtain rfl := Option.some.inj hviolation
    -- a first child would start before its parent, and not be inside it
    rcases before.eq_nil_or_concat with rfl | ⟨before, b, rfl⟩
    · exact absurd (Or.inl hoverlap) houtside
    · rw [List.concat_eq_append, List.append_assoc] at hsplit
      have hb : b ∈ before.concat b := by
        rw [List.concat_eq_append]
        exact List.mem_append_right _ List.mem_cons_self
      have hstop : a.stopAfter (a.offsets p).1 (before.concat b) = (a.offsets b).2 := by
        rw [stopAfter, List.concat_eq_append, List.getLast?_append]
        rfl
      rw [hstop] at hoverlap ⊢
      exact ⟨rfl, ⟨_, hspanc⟩, p, hp, before, b, after, hsplit,
        ⟨_, textRange_eq_ok_iff.2 ⟨hbefore b hb, rfl⟩⟩, hoverlap⟩

/-! ### Nodes apart -/

section apart

variable (hlies : ∀ p ∈ g.walk root, a.LieIn (a.offsets p) (a.offsets p).1 (g.children (g.shape root) p))

include hlies

/-- Nodes whose children lie in them have all nodes under them in them. -/
theorem offsets_inside_of_reaches {u x : NodeId} (hu : u ∈ g.walk root)
    (hx : g.Reaches (g.shape root) u x) :
    (a.offsets u).1 ≤ (a.offsets x).1 ∧ (a.offsets x).2 ≤ (a.offsets u).2 := by
  induction hx with
  | refl => exact ⟨le_rfl, le_rfl⟩
  | @tail p c hp hc ih =>
    have hpwalk : p ∈ g.walk root :=
      NodeTable.mem_walk_iff.2 ((NodeTable.mem_walk_iff.1 hu).trans hp)
    obtain ⟨hlo, hhi⟩ := (lieIn_iff.1 (hlies p hpwalk)).1 c hc
    exact ⟨ih.1.trans hlo, hhi.trans ih.2⟩

/-- **Nodes neither of which is above the other one are apart** if the children of each node lie in it one
after the other. -/
theorem offsets_apart (hle : ∀ id ∈ g.walk root, (a.offsets id).1 ≤ (a.offsets id).2) {x y : NodeId}
    (hx : x ∈ g.walk root) (hy : y ∈ g.walk root) (hxy : ¬ g.Reaches (g.shape root) x y)
    (hyx : ¬ g.Reaches (g.shape root) y x) :
    (a.offsets x).2 ≤ (a.offsets y).1 ∨ (a.offsets y).2 ≤ (a.offsets x).1 := by
  induction NodeTable.mem_walk_iff.1 hx with
  | refl => exact absurd (NodeTable.mem_walk_iff.1 hy) hxy
  | @tail p x hp hchild ih =>
    have hpwalk := NodeTable.mem_walk_iff.2 hp
    obtain ⟨hinside, hchain⟩ := lieIn_iff.1 (hlies p hpwalk)
    by_cases hpy : g.Reaches (g.shape root) p y
    · -- `y` is in a sibling of `x`
      rcases hpy.cases_head with rfl | ⟨d, hd, hdy⟩
      · exact absurd (Relation.ReflTransGen.single hchild) hyx
      have hdwalk := NodeTable.mem_walk_of_mem_children hpwalk hd
      obtain ⟨hlo, hhi⟩ := offsets_inside_of_reaches hlies hdwalk hdy
      have hsiblings := apart_of_isChain (fun id => (a.offsets id).1) (fun id => (a.offsets id).2)
        (fun id hid => hle id (NodeTable.mem_walk_of_mem_children hpwalk hid)) hchain hchild hd
        fun heq => hxy (heq ▸ hdy)
      omega
    · have hyp : ¬ g.Reaches (g.shape root) y p := fun hyp => hyx (hyp.tail hchild)
      have hapart := ih hpwalk hpy hyp
      obtain ⟨hlo, hhi⟩ := hinside x hchild
      omega

end apart

end Annotated

/-- **The check of a tree succeeds on well-placed nodes, and what it reports is so.** Any ranges are checked
against a source that was read from a text. The check of a tree succeeds if and only if all nodes have
ranges, lie in their parents, and start where the previous child of the parent stops or after it. A
violation is reported of a node for which it holds, with its real offsets. If the check succeeds, two nodes
neither of which is above the other one have no byte in common: one stops where the other one starts or
before. -/
theorem verify_of_isTree {text : Text} {source : Source} {ranges : RangeTable} {g : NodeTable}
    {root : NodeId} (hsource : Source.ofText? text = .ok source)
    (hranges : ∀ id r, ranges.get? id = some r → r.first ≤ r.last) (htree : g.IsTree root) :
    ((⟨source, ranges⟩ : Annotated).verify g root = .ok () ↔
        (⟨source, ranges⟩ : Annotated).WellPlaced g root) ∧
      (∀ v, (⟨source, ranges⟩ : Annotated).verify g root = .error v →
        v.IsOf ⟨source, ranges⟩ g root) ∧
      ((⟨source, ranges⟩ : Annotated).verify g root = .ok () →
        ∀ x ∈ g.walk root, ∀ y ∈ g.walk root, ¬ g.Reaches (g.shape root) x y →
          ¬ g.Reaches (g.shape root) y x → ∀ s u,
            (⟨source, ranges⟩ : Annotated).textRange x = .ok s →
            (⟨source, ranges⟩ : Annotated).textRange y = .ok u → s.2 ≤ u.1 ∨ u.2 ≤ s.1) := by
  refine ⟨Annotated.verify_eq_ok_iff_wellPlaced htree,
    fun v => Annotated.isOf_of_verify_eq_error htree, ?_⟩
  intro hok x hx y hy hxy hyx s u hs hu
  obtain ⟨hmarked, hlies⟩ := (Annotated.verify_eq_ok_iff_of_isTree htree).1 hok
  have hle : ∀ id ∈ g.walk root, ((⟨source, ranges⟩ : Annotated).offsets id).1 ≤
      ((⟨source, ranges⟩ : Annotated).offsets id).2 := by
    intro id hid
    obtain ⟨r, hr⟩ := hmarked id hid
    rw [Annotated.offsets_eq hr]
    exact Source.edgeOffset_mono hsource (TokenRange.lowEdge_le_highEdge (hranges id r hr))
  rw [← (Annotated.textRange_eq_ok_iff.1 hs).2, ← (Annotated.textRange_eq_ok_iff.1 hu).2]
  exact Annotated.offsets_apart hlies hle hx hy hxy hyx

theorem isTree_callGraph : callGraph.IsTree 1 :=
  NodeTable.isTree_iff.2 (by decide)

/-- The ranges of a call pass for another text too, which has fewer tokens than they name. -/
theorem verify_of_isTree_callGraph :
    Source.ofText? ['x', '\n'] = .ok nameSource ∧
      (∀ id r, callRanges.get? id = some r → r.first ≤ r.last) ∧ callGraph.IsTree 1 ∧
      (⟨nameSource, callRanges⟩ : Annotated).WellPlaced callGraph 1 := by
  have hsource : Source.ofText? ['x', '\n'] = .ok nameSource := by decide +kernel
  have hranges : ∀ id r, callRanges.get? id = some r → r.first ≤ r.last := by
    intro id r hr
    have hall : ∀ x ∈ callRanges.entries, x.2.first ≤ x.2.last := by decide
    obtain ⟨before, after, hsplit, -⟩ := List.lookup_eq_some_iff.1 hr
    exact hall (id, r) (by simp [hsplit])
  have hok : (⟨nameSource, callRanges⟩ : Annotated).verify callGraph 1 = .ok () := by decide +kernel
  exact ⟨hsource, hranges, isTree_callGraph,
    (verify_of_isTree hsource hranges isTree_callGraph).1.1 hok⟩

end SourceSpans
