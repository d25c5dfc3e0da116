import SourceSpans.Proofs.Edit.Splicing
import SourceSpans.Proofs.Mark.Lookups

/-!
# Rewriting a marked tree

New texts for nodes of a marked tree, none of them under another one, are edits that are always applied
(`replace_rewrites`). Two things meet here.

* **Nodes apart** (`Placed.apart`): two nodes of a placed tree, neither under the other, have their ranges
  one after the other, empty ranges too. Their edits may touch but do not conflict.
* **Own texts** (`splice_replaced`): edits that put back what they replace change nothing.
-/

namespace SourceSpans

open SyntaxTree (subtreesAll)

/-- A new text for a node. -/
structure Rewrite where
  node : NodeId
  newText : Text
  /-- Whether the text of the node has to stand where it is to be replaced. -/
  isVerified : Bool
  deriving DecidableEq, Repr

/-- The edit that rewrites a node with these offsets and this text. -/
def Rewrite.editOver (w : Rewrite) (range : Nat × Nat) (own : Text) : Edit where
  start := range.1
  stop := range.2
  newText := w.newText
  expected? := if w.isVerified then some (.ofText own) else none

/-- The edit that rewrites a node. -/
def Annotated.edit (a : Annotated) (w : Rewrite) : Except SpanError Edit := do
  return w.editOver (← a.textRange w.node) (← a.text w.node)

/-! ### Nodes apart -/

namespace Placed

variable {entries : List (NodeId × TokenRange)}

mutual

/-- The edges of all trees in a placed one lie between its own edges. -/
theorem edges_of_mem_subtrees : (t : SyntaxTree) → ∀ {r : TokenRange}, Placed entries t r →
    ∀ u ∈ t.subtrees, ∃ s, (u.id, s) ∈ entries ∧ r.lowEdge ≤ s.lowEdge ∧ s.highEdge ≤ r.highEdge
  | .node id kind literal? children, r, h, u, hu => by
      rcases List.mem_cons.1 hu with rfl | hu
      · exact ⟨r, h.id_mem, le_rfl, le_rfl⟩
      · exact edges_of_mem_subtreesAll children h.children u hu

theorem edges_of_mem_subtreesAll : (ts : List SyntaxTree) → ∀ {lo hi : Nat},
    PlacedIn entries lo hi ts →
    ∀ u ∈ subtreesAll ts, ∃ s, (u.id, s) ∈ entries ∧ lo ≤ s.lowEdge ∧ s.highEdge ≤ hi
  | [], lo, hi, h, u, hu => absurd hu List.not_mem_nil
  | t :: rest, lo, hi, h, u, hu => by
      rw [PlacedIn] at h
      obtain ⟨r, hlo, hle, ht, hrest⟩ := h
      rcases List.mem_append.1 hu with hu | hu
      · obtain ⟨s, hs, hlow, hhigh⟩ := edges_of_mem_subtrees t ht u hu
        exact ⟨s, hs, hlo.trans hlow, hhigh.trans hrest.le⟩
      · obtain ⟨s, hs, hlow, hhigh⟩ := edges_of_mem_subtreesAll rest hrest u hu
        exact ⟨s, hs, (hlo.trans hle).trans hlow, hhigh⟩

end

/-- The roots of two trees have ranges one of which stops where the other one starts or before. -/
def Apart (entries : List (NodeId × TokenRange)) (u v : SyntaxTree) : Prop :=
  ∃ r s, (u.id, r) ∈ entries ∧ (v.id, s) ∈ entries ∧
    (r.highEdge ≤ s.lowEdge ∨ s.highEdge ≤ r.lowEdge)

theorem Apart.symm {u v : SyntaxTree} (h : Apart entries u v) : Apart entries v u := by
  obtain ⟨r, s, hr, hs, hapart⟩ := h
  exact ⟨s, r, hs, hr, hapart.symm⟩

mutual

/-- **Two trees in a placed one, neither in the other, are apart.** -/
theorem apart : (t : SyntaxTree) → ∀ {r : TokenRange}, Placed entries t r →
    ∀ u ∈ t.subtrees, ∀ v ∈ t.subtrees, u.id ∉ v.preorder → v.id ∉ u.preorder → Apart entries u v
  | .node id kind literal? children, r, h, u, hu, v, hv, huv, hvu => by
      have hpreorder : ∀ w ∈ SyntaxTree.subtrees (.node id kind literal? children),
          w.id ∈ SyntaxTree.preorder (.node id kind literal? children) := by
        intro w hw
        rw [← SyntaxTree.map_id_subtrees]
        exact List.mem_map_of_mem hw
      rcases List.mem_cons.1 hu with rfl | hu'
      · exact absurd (hpreorder v hv) hvu
      rcases List.mem_cons.1 hv with rfl | hv'
      · exact absurd (hpreorder u hu) huv
      exact apart_all children h.children u hu' v hv' huv hvu

theorem apart_all : (ts : List SyntaxTree) → ∀ {lo hi : Nat}, PlacedIn entries lo hi ts →
    ∀ u ∈ subtreesAll ts, ∀ v ∈ subtreesAll ts, u.id ∉ v.preorder → v.id ∉ u.preorder →
      Apart entries u v
  | [], lo, hi, h, u, hu, v, hv, huv, hvu => absurd hu List.not_mem_nil
  | t :: rest, lo, hi, h, u, hu, v, hv, huv, hvu => by
      rw [PlacedIn] at h
      obtain ⟨r, -, -, ht, hrest⟩ := h
      -- of a tree in `t` and one in `rest` the first one stops before the other one starts
      have hacross : ∀ x ∈ t.subtrees, ∀ y ∈ subtreesAll rest, Apart entries x y := by
        intro x hx y hy
        obtain ⟨rx, hrx, -, hhigh⟩ := edges_of_mem_subtrees t ht x hx
        obtain ⟨ry, hry, hlow, -⟩ := edges_of_mem_subtreesAll rest hrest y hy
        exact ⟨rx, ry, hrx, hry, Or.inl (hhigh.trans hlow)⟩
      rcases List.mem_append.1 hu with hu | hu <;> rcases List.mem_append.1 hv with hv | hv
      · exact apart t ht u hu v hv huv hvu
      · exact hacross u hu v hv
      · exact (hacross v hv u hu).symm
      · exact apart_all rest hrest u hu v hv huv hvu

end

end Placed

namespace NodeTable

variable {g : NodeTable} {root : NodeId}

theorem place_le_of_liesUnder {p x : NodeId} (h : g.LiesUnder root p x) :
    g.place root p ≤ g.place root x := by
  induction h with
  | self => exact le_rfl
  | child hparent _ ih => exact ih.trans (place_lt_of_parent? hparent).le

/-- Two children of one node do not lie under one another. -/
theorem not_liesUnder_of_siblings {p b c : NodeId} (hb : g.parent? root b = some p)
    (hc : g.parent? root c = some p) (hne : b ≠ c) : ¬ g.LiesUnder root b c := by
  intro h
  cases h with
  | self => exact hne rfl
  | child hparent hunder =>
    obtain rfl := Option.some.inj (hc.symm.trans hparent)
    have hle := place_le_of_liesUnder hunder
    have hlt := place_lt_of_parent? hb
    omega

end NodeTable

/-! ### Own texts -/

variable {t u v : Text}

/-- Edits that put back what they replace change nothing. -/
theorem splice_replaced {edits : List Edit} (h : Edit.InOrderFrom (u ++ v) (Text.size u) edits)
    (hown : ∀ e ∈ edits, e.newText = e.replaced (u ++ v)) :
    splice (u ++ v) (Text.size u) edits = v := by
  induction edits generalizing u v with
  | nil => exact splice_nil u v
  | cons e edits ih =>
    obtain ⟨gap, old, after, rfl, hstart, hstop⟩ := exists_cut h
    have htext : u ++ (gap ++ (old ++ after)) = u ++ gap ++ old ++ after := by
      simp only [List.append_assoc]
    have hnew : e.newText = old := by
      rw [hown e List.mem_cons_self, Edit.replaced, hstart, hstop, htext,
        Text.slice?_append_append]
      rfl
    have hrest := h.2.2
    rw [hstop, htext] at hrest
    have ih := ih hrest fun f hf => by
      rw [← htext]
      exact hown f (List.mem_cons_of_mem e hf)
    rw [splice_cons hstart, hnew, hstop, htext, ih, List.append_assoc]

/-! ### Rewrites -/

section rewrites

variable {a : Annotated} {policy : PolicyTable} {g : NodeTable} {root : NodeId}

namespace Annotated

/-- The edit that rewrites a node, without failures. -/
def ownEdit (a : Annotated) (w : Rewrite) : Edit :=
  w.editOver (a.offsets w.node) (a.ownText w.node)

theorem edit_eq_ok {w : Rewrite} {r : TokenRange} (h : a.ranges.get? w.node = some r) :
    a.edit w = .ok (a.ownEdit w) := by
  unfold edit
  rw [textRange_eq_ok h, text_eq_ok h]
  rfl

theorem replaced_ownEdit (a : Annotated) (w : Rewrite) :
    (a.ownEdit w).replaced a.source.text = a.ownText w.node := rfl

end Annotated

/-- The edges of a marked node are edges of tokens that there are, in order. -/
theorem exists_edges_of_mark (hmark : mark a.source policy g root = .ok a.ranges) {id : NodeId}
    (hid : id ∈ g.walk root) :
    ∃ r, a.ranges.get? id = some r ∧ r.lowEdge ≤ r.highEdge ∧ r.highEdge < 2 * a.source.size := by
  obtain ⟨tree, htree, rfl⟩ := NodeTable.exists_mem_subtrees hid
  obtain ⟨r, hr⟩ := placed_of_mark hmark htree
  have hget := RangeTable.get?_eq_some_of_mem (nodup_ids_of_mark hmark) hr.id_mem
  exact ⟨r, hget, hr.children.le, r.highEdge_lt (inBounds_of_mark hmark hget)⟩

/-- Of two nodes that do not lie under one another, one stops where the other one starts or before. -/
theorem offsets_apart (hmark : mark a.source policy g root = .ok a.ranges)
    (horder : a.source.InOrder) {p q : NodeId} (hp : p ∈ g.walk root) (hq : q ∈ g.walk root)
    (hpq : ¬ g.LiesUnder root p q) (hqp : ¬ g.LiesUnder root q p) :
    (a.offsets p).2 ≤ (a.offsets q).1 ∨ (a.offsets q).2 ≤ (a.offsets p).1 := by
  obtain ⟨u, hu, rfl⟩ := NodeTable.exists_mem_subtrees hp
  obtain ⟨v, hv, rfl⟩ := NodeTable.exists_mem_subtrees hq
  rw [NodeTable.liesUnder_iff_mem_preorder hu] at hpq
  rw [NodeTable.liesUnder_iff_mem_preorder hv] at hqp
  obtain ⟨r, hr⟩ := placed_of_mark hmark (SyntaxTree.mem_subtrees_self _)
  obtain ⟨ru, rv, hru, hrv, hapart⟩ := hr.apart _ u hu v hv hqp hpq
  have hgetu := RangeTable.get?_eq_some_of_mem (nodup_ids_of_mark hmark) hru
  have hgetv := RangeTable.get?_eq_some_of_mem (nodup_ids_of_mark hmark) hrv
  have hltu := ru.lowEdge_lt (inBounds_of_mark hmark hgetu)
  have hltv := rv.lowEdge_lt (inBounds_of_mark hmark hgetv)
  rw [Annotated.offsets_eq hgetu, Annotated.offsets_eq hgetv]
  exact hapart.imp (fun hle => horder.edgeOffset_le hle hltv) fun hle =>
    horder.edgeOffset_le hle hltu

/-- The edit that rewrites a marked node fits the text. -/
theorem fits_ownEdit (hsource : Source.ofText? t = .ok a.source)
    (hmark : mark a.source policy g root = .ok a.ranges) {w : Rewrite}
    (hw : w.node ∈ g.walk root) : (a.ownEdit w).Fits t := by
  obtain ⟨r, hr, hle, hlt⟩ := exists_edges_of_mark hmark hw
  have hstart := Source.isBoundary_edgeOffset hsource r.lowEdge
  have hstop := Source.isBoundary_edgeOffset hsource r.highEdge
  have hinOrder := (Source.inOrder_of_ofText? hsource).edgeOffset_le hle hlt
  unfold Annotated.ownEdit
  rw [Annotated.offsets_eq hr]
  exact ⟨hinOrder, Text.le_size_of_isBoundary hstop, hstart, hstop⟩

/-- It expects nothing but what stands there. -/
theorem findsExpected_ownEdit {w : Rewrite} (hfits : (a.ownEdit w).Fits a.source.text) :
    (a.ownEdit w).FindsExpected a.source.text := by
  rw [hfits.findsExpected_iff, a.replaced_ownEdit]
  intro expected hexpected
  unfold Annotated.ownEdit Rewrite.editOver at hexpected
  dsimp only at hexpected
  split_ifs at hexpected
  obtain rfl := Option.some.inj hexpected
  exact Expectation.admits_ofText (a.ownText w.node)

/-- **Rewriting a marked tree is safe.** Take new texts for nodes none of which lies under another one, in
any order, each with or without a check that the text of the node still stands there. All of them are
edits, and the batch of these is applied. If every new text is the text of its node, the text stays as it
is. -/
theorem replace_rewrites (hsource : Source.ofText? t = .ok a.source)
    (hmark : mark a.source policy g root = .ok a.ranges) {rewrites : List Rewrite}
    (hnodes : ∀ w ∈ rewrites, w.node ∈ g.walk root)
    (hapart : rewrites.Pairwise fun w x =>
      ¬ g.LiesUnder root w.node x.node ∧ ¬ g.LiesUnder root x.node w.node) :
    ∃ edits result, rewrites.mapM a.edit = .ok edits ∧ replace t edits = .ok result ∧
      ((∀ w ∈ rewrites, a.text w.node = .ok w.newText) → result = t) := by
  obtain rfl : a.source.text = t := by
    obtain ⟨joined, hbuild, -⟩ := Source.exists_of_ofText? hsource
    rw [hbuild]
    rfl
  have hedits : rewrites.mapM a.edit = .ok (rewrites.map a.ownEdit) := by
    refine mapM_eq_ok fun w hw => ?_
    obtain ⟨r, hr, -⟩ := exists_edges_of_mark hmark (hnodes w hw)
    exact Annotated.edit_eq_ok hr
  have hfits : ∀ e ∈ rewrites.map a.ownEdit, e.Fits a.source.text := by
    rw [List.forall_mem_map]
    exact fun w hw => fits_ownEdit hsource hmark (hnodes w hw)
  have hright : ∀ e ∈ rewrites.map a.ownEdit, e.fault? a.source.text = none := by
    intro e he
    obtain ⟨w, -, rfl⟩ := List.mem_map.1 he
    exact Edit.fault?_eq_none_iff.2 ⟨hfits _ he, findsExpected_ownEdit (hfits _ he)⟩
  have hpairwise : (rewrites.map a.ownEdit).Pairwise fun e f => ¬ e.Conflicts f := by
    rw [List.pairwise_map]
    refine hapart.imp_of_mem fun {w x} hw hx hwx => ?_
    have hwFits := hfits _ (List.mem_map_of_mem hw)
    have hxFits := hfits _ (List.mem_map_of_mem hx)
    rw [Edit.conflicts_iff hwFits.start_le_stop hxFits.start_le_stop, not_not]
    exact offsets_apart hmark (Source.inOrder_of_ofText? hsource) (hnodes w hw) (hnodes x hx)
      hwx.1 hwx.2
  have hoverlap := (overlap?_mergeSort_eq_none_iff fun e he => (hfits e he).start_le_stop).2 hpairwise
  have hreplace := replace_eq_ok_iff.2 ⟨hright, hoverlap, rfl⟩
  refine ⟨_, _, hedits, hreplace, fun hown => ?_⟩
  have hinOrder := (inOrderFrom_of_replace_eq_ok hreplace).1
  refine splice_replaced (u := []) hinOrder fun e he => ?_
  obtain ⟨w, hw, rfl⟩ := List.mem_map.1 (List.mem_mergeSort.1 he)
  obtain ⟨r, hr, -⟩ := exists_edges_of_mark hmark (hnodes w hw)
  have htext := hown w hw
  rw [Annotated.text_eq_ok hr] at htext
  exact (Except.ok.inj htext).symm

end rewrites

/-! ### A call with new texts -/

/-- A call on a line of its own. -/
def callText : Text := "f(x)\n".toList

/-- The call with the ranges of `callGraph`, in which the node `3` has no token. -/
def markedCall : Annotated where
  source := Source.build callText
    [⟨.name, ['f'], ⟨1, 0⟩, ⟨1, 1⟩, callText⟩,
      ⟨.op, ['('], ⟨1, 1⟩, ⟨1, 2⟩, callText⟩,
      ⟨.name, ['x'], ⟨1, 2⟩, ⟨1, 3⟩, callText⟩,
      ⟨.op, [')'], ⟨1, 3⟩, ⟨1, 4⟩, callText⟩,
      ⟨.newline, ['\n'], ⟨1, 4⟩, ⟨2, 0⟩, callText⟩,
      ⟨.endMarker, [], ⟨2, 0⟩, ⟨2, 0⟩, []⟩]
  ranges := callRanges

/-- New texts for the argument, for the node without tokens before it, and for the name. -/
def callRewrites : List Rewrite := [⟨4, ['y', 'z'], true⟩, ⟨3, ['*'], false⟩, ⟨2, ['f'], true⟩]

/-- The edits for the new texts. -/
def callEdits : List Edit :=
  [⟨2, 3, ['y', 'z'], some (.exact ['x'])⟩, ⟨2, 2, ['*'], none⟩, ⟨0, 1, ['f'], some (.exact ['f'])⟩]

/-- The texts that these nodes have. -/
def ownRewrites : List Rewrite := [⟨3, [], true⟩, ⟨2, ['f'], false⟩, ⟨4, ['x'], true⟩]

/-- The edits for the texts that the nodes have. -/
def ownEdits : List Edit :=
  [⟨2, 2, [], some (.exact [])⟩, ⟨0, 1, ['f'], none⟩, ⟨2, 3, ['x'], some (.exact ['x'])⟩]

/-- The one batch gives `f(*yz)`, the other one the call as it is. -/
theorem replace_rewrites_call :
    Source.ofText? callText = .ok markedCall.source ∧
      mark markedCall.source .empty callGraph 1 = .ok markedCall.ranges ∧
      (∀ rewrites ∈ [callRewrites, ownRewrites], (∀ w ∈ rewrites, w.node ∈ callGraph.walk 1) ∧
        rewrites.Pairwise fun w x =>
          ¬ callGraph.LiesUnder 1 w.node x.node ∧ ¬ callGraph.LiesUnder 1 x.node w.node) ∧
      callRewrites.mapM markedCall.edit = .ok callEdits ∧
      replace callText callEdits = .ok "f(*yz)\n".toList ∧
      (∀ w ∈ ownRewrites, markedCall.text w.node = .ok w.newText) ∧
      ownRewrites.mapM markedCall.edit = .ok ownEdits ∧
      replace callText ownEdits = .ok callText := by
  have hsource : Source.ofText? callText = .ok markedCall.source := by decide +kernel
  have hmark : mark markedCall.source .empty callGraph 1 = .ok markedCall.ranges := by
    decide +kernel
  have hparent : ∀ c ∈ [2, 3, 4], callGraph.parent? 1 c = some 1 := by
    simp only [NodeTable.parent?, ← NodeTable.preorder_unfolding]
    decide
  have hsiblings : ∀ b ∈ [2, 3, 4], ∀ c ∈ [2, 3, 4], b ≠ c → ¬ callGraph.LiesUnder 1 b c :=
    fun b hb c hc => NodeTable.not_liesUnder_of_siblings (hparent b hb) (hparent c hc)
  have hrewrites : ∀ rewrites ∈ [callRewrites, ownRewrites],
      (∀ w ∈ rewrites, w.node ∈ callGraph.walk 1) ∧ rewrites.Pairwise fun w x =>
        ¬ callGraph.LiesUnder 1 w.node x.node ∧ ¬ callGraph.LiesUnder 1 x.node w.node := by
    intro rewrites hmem
    constructor
    · rw [← NodeTable.preorder_unfolding]
      revert rewrites
      decide
    · rcases List.mem_pair.1 hmem with rfl | rfl
      · simp [callRewrites, hsiblings]
      · simp [ownRewrites, hsiblings]
  have hcall : callRewrites.mapM markedCall.edit = .ok callEdits := by decide +kernel
  have hsorted : callEdits.mergeSort Edit.precedes = callEdits.reverse := by
    simp [callEdits, List.mergeSort, List.MergeSort.Internal.splitInTwo, Edit.precedes]
  have hresult : replace callText callEdits = .ok "f(*yz)\n".toList := by
    rw [replace_eq_ok_iff, hsorted]
    decide +kernel
  have htexts : ∀ w ∈ ownRewrites, markedCall.text w.node = .ok w.newText := by decide +kernel
  have hown : ownRewrites.mapM markedCall.edit = .ok ownEdits := by decide +kernel
  obtain ⟨hnodes, hapart⟩ := hrewrites ownRewrites (by simp)
  obtain ⟨edits, result, hedits, hreplace, hsame⟩ := replace_rewrites hsource hmark hnodes hapart
  obtain rfl := Except.ok.inj (hown.symm.trans hedits)
  obtain rfl := hsame htexts
  exact ⟨hsource, hmark, hrewrites, hcall, hresult, htexts, hown, hreplace⟩

end SourceSpans
