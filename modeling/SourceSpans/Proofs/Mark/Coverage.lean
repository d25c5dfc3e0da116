import Mathlib.Data.List.Perm.Basic
import SourceSpans.Proofs.Mark.Steps
import SourceSpans.Proofs.Tree.FirstVisit

/-!
# Marking covers the walk

Marking enters the nodes in the order of the walk, also when it stops with an error
(`visit_entered`), and every node it has entered either has a range or still waits for one
(`ids_perm_of_visit`): the nodes given a range and the nodes that are handed on as waiting are the
nodes of the visited tree, each once. At the root nothing is left to wait, so a marked tree has
ranges for exactly the nodes of the walk. The visited tree is cut off nowhere: it is the depth-first
visit of the root (`NodeTable.visits_unfolding`).
-/

namespace SourceSpans

open SyntaxTree (preorder preorderAll)

namespace RangeTable

/-- The nodes that have a range, the one given last first. -/
def ids (t : RangeTable) : List NodeId := t.entries.map Prod.fst

theorem mem_of_get?_eq_some {t : RangeTable} {id : NodeId} {r : TokenRange}
    (h : t.get? id = some r) : (id, r) ∈ t.entries := by
  obtain ⟨before, after, heq, -⟩ := List.lookup_eq_some_iff.1 h
  rw [heq]
  simp

theorem contains_iff_mem_ids {t : RangeTable} {id : NodeId} :
    t.contains id = true ↔ id ∈ t.ids := by
  unfold contains get? ids
  constructor
  · intro h
    obtain ⟨r, hr⟩ := Option.isSome_iff_exists.1 h
    exact List.mem_map.2 ⟨_, mem_of_get?_eq_some hr, rfl⟩
  · intro h
    by_contra hnone
    rw [Option.not_isSome_iff_eq_none, List.lookup_eq_none_iff] at hnone
    obtain ⟨⟨id', r⟩, hmem, rfl⟩ := List.mem_map.1 h
    simpa using hnone _ hmem

/-- A node that was given a range once has this range. -/
theorem get?_eq_some_of_mem {t : RangeTable} {id : NodeId} {r : TokenRange}
    (hnodup : t.ids.Nodup) (h : (id, r) ∈ t.entries) : t.get? id = some r := by
  have hid : id ∈ t.ids := List.mem_map.2 ⟨_, h, rfl⟩
  obtain ⟨r', hr'⟩ := Option.isSome_iff_exists.1 (contains_iff_mem_ids.2 hid)
  have := List.inj_on_of_nodup_map hnodup (mem_of_get?_eq_some hr') h rfl
  rw [hr', (Prod.mk.inj this).2]

end RangeTable

/-- The nodes that a claim hands on to wait for a place. -/
def Claim.waiting : Claim → List NodeId
  | tokens _ => []
  | nothing waiting => waiting

theorem Pass.ids_give (s : Pass) (ids : List NodeId) (r : TokenRange) :
    (s.give ids r).ranges.ids = ids.reverse ++ s.ranges.ids := by
  simp [RangeTable.ids, List.map_reverse, Function.comp_def]

/-- Adopting what a child hands on loses no waiting node: it waits on, or it is given a range. -/
theorem Frame.ids_perm_adopt (f : Frame) (claim : Claim) (s : Pass) :
    ((f.adopt claim s).2.ranges.ids ++ (f.adopt claim s).1.waiting).Perm
      (s.ranges.ids ++ (f.waiting ++ claim.waiting)) := by
  cases claim with
  | tokens span =>
    rw [adopt_tokens]
    simp only [Pass.ids_give, Claim.waiting, List.append_nil]
    exact List.perm_append_comm.trans ((f.waiting.reverse_perm).append_left _)
  | nothing waiting =>
    rw [adopt_nothing]
    exact List.Perm.refl _

namespace Marker

variable {m : Marker}

/-! ### The nodes entered -/

mutual

/-- A visit enters the nodes of its tree in order; when it fails, the first ones of them. -/
theorem visit_entered : (t : SyntaxTree) → ∀ (parentFloor : Nat) (s : Pass),
    (∀ claim s', m.visit parentFloor t s = .ok (claim, s') →
      s'.entered = t.preorder.reverse ++ s.entered) ∧
    ∀ failure, m.visit parentFloor t s = .error failure →
      ∃ part, part <+: t.preorder ∧ failure.entered = part.reverse ++ s.entered
  | .node id kind literal? children, parentFloor, s => by
      rcases henter : m.enter id (m.policy.rule? kind) parentFloor s with ⟨f₀, s₀⟩
      obtain ⟨-, -, -, -, hentered, -⟩ := enter_eq henter
      obtain ⟨hok, herror⟩ := visitAll_entered children (m.policy.rule? kind) f₀ s₀
      rw [hentered] at hok herror
      rw [visit_node, henter]
      refine ⟨fun claim s' h => ?_, fun failure h => ?_⟩
      · obtain ⟨⟨f₁, s₁⟩, hall, hleave⟩ := bind_eq_ok h
        have hs₁ := hok f₁ s₁ hall
        rcases leave_cases hleave with ⟨-, -, rfl⟩ | ⟨_, _, -, -, -, -, hs', -⟩
        · rw [hs₁]
          simp [preorder]
        · rw [hs', hs₁]
          simp [preorder]
      · rcases bind_eq_error h with hall | ⟨⟨f₁, s₁⟩, hall, hleave⟩
        · obtain ⟨part, hpart, heq⟩ := herror failure hall
          exact ⟨id :: part, List.cons_prefix_cons.2 ⟨rfl, hpart⟩, by simp [heq]⟩
        · refine ⟨id :: preorderAll children, List.prefix_rfl, ?_⟩
          rw [leave_eq_error hleave, hok f₁ s₁ hall]
          simp

/-- The same for the children that are left. -/
theorem visitAll_entered : (ts : List SyntaxTree) → ∀ (rule? : Option Rule) (f : Frame) (s : Pass),
    (∀ f' s', m.visitAll rule? ts f s = .ok (f', s') →
      s'.entered = (preorderAll ts).reverse ++ s.entered) ∧
    ∀ failure, m.visitAll rule? ts f s = .error failure →
      ∃ part, part <+: preorderAll ts ∧ failure.entered = part.reverse ++ s.entered
  | [], rule?, f, s => by
      refine ⟨fun f' s' h => ?_, fun failure h => ?_⟩
      · obtain ⟨-, rfl⟩ := Prod.mk.inj (Except.ok.inj h)
        rfl
      · cases h
  | child :: rest, rule?, f, s => by
      rcases hintro : m.introduce rule? f s with ⟨f₀, s₀⟩
      obtain ⟨-, -, -, -, hs₀, -⟩ := introduce_eq hintro
      obtain ⟨hok, herror⟩ := visit_entered child f₀.floor s₀
      rw [hs₀] at hok herror
      rw [visitAll_cons, hintro]
      have hadopt : ∀ claim (s₁ : Pass), (f₀.adopt claim s₁).2.entered = s₁.entered := by
        intro claim s₁
        cases claim <;> rfl
      refine ⟨fun f' s' h => ?_, fun failure h => ?_⟩
      · obtain ⟨⟨claim, s₁⟩, hchild, hrest⟩ := bind_eq_ok h
        have hs' := (visitAll_entered rest rule? _ _).1 f' s' hrest
        rw [hs', hadopt, hok claim s₁ hchild]
        simp [preorderAll]
      · rcases bind_eq_error h with hchild | ⟨⟨claim, s₁⟩, hchild, hrest⟩
        · obtain ⟨part, hpart, heq⟩ := herror failure hchild
          exact ⟨part, hpart.trans (List.prefix_append _ _), heq⟩
        · obtain ⟨part, hpart, heq⟩ := (visitAll_entered rest rule? _ _).2 failure hrest
          refine ⟨child.preorder ++ part, (List.prefix_append_right_inj _).2 hpart, ?_⟩
          rw [heq, hadopt, hok claim s₁ hchild]
          simp

end

/-! ### The nodes given a range -/

mutual

/-- After a visit the nodes with a range, together with those handed on as waiting, are those of the
tree and those that had a range before. -/
theorem ids_perm_of_visit : (t : SyntaxTree) → ∀ (parentFloor : Nat) (s s' : Pass) (claim : Claim),
    m.visit parentFloor t s = .ok (claim, s') →
      (s'.ranges.ids ++ claim.waiting).Perm (s.ranges.ids ++ t.preorder)
  | .node id kind literal? children, parentFloor, s, s', claim, h => by
      rcases henter : m.enter id (m.policy.rule? kind) parentFloor s with ⟨f₀, s₀⟩
      obtain ⟨-, -, hwaiting, hranges, -, -⟩ := enter_eq henter
      rw [visit_node, henter] at h
      obtain ⟨⟨f₁, s₁⟩, hall, hleave⟩ := bind_eq_ok h
      have hperm := ids_perm_of_visitAll children (m.policy.rule? kind) f₀ f₁ s₀ s₁ hall
      rw [hwaiting, hranges, List.nil_append] at hperm
      rw [List.perm_iff_count] at hperm ⊢
      intro x
      have hx := hperm x
      rcases leave_cases hleave with ⟨-, rfl, rfl⟩ | ⟨_, span, -, -, rfl, -, -, hgiven⟩
      · simp only [Claim.waiting, preorder, List.count_append, List.count_cons,
          List.count_nil] at hx ⊢
        omega
      · have hids : s'.ranges.ids = f₁.waiting.reverse ++ id :: s₁.ranges.ids := by
          rw [hgiven, Pass.ids_give, Pass.ids_give, List.reverse_singleton, List.singleton_append]
        simp only [hids, Claim.waiting, preorder, List.count_append, List.count_cons,
          List.count_nil, List.count_reverse] at hx ⊢
        omega

/-- The same for the children that are left, with what waits in the frame. -/
theorem ids_perm_of_visitAll : (ts : List SyntaxTree) →
    ∀ (rule? : Option Rule) (f f' : Frame) (s s' : Pass),
    m.visitAll rule? ts f s = .ok (f', s') →
      (s'.ranges.ids ++ f'.waiting).Perm (s.ranges.ids ++ (f.waiting ++ preorderAll ts))
  | [], rule?, f, f', s, s', h => by
      obtain ⟨rfl, rfl⟩ := Prod.mk.inj (Except.ok.inj h)
      rw [preorderAll, List.append_nil]
  | child :: rest, rule?, f, f', s, s', h => by
      rcases hintro : m.introduce rule? f s with ⟨f₀, s₀⟩
      obtain ⟨-, -, hwaiting, hranges, -, -⟩ := introduce_eq hintro
      rw [visitAll_cons, hintro] at h
      obtain ⟨⟨claim, s₁⟩, hchild, hrest⟩ := bind_eq_ok h
      have hvisit := ids_perm_of_visit child f₀.floor s₀ s₁ claim hchild
      have hadopt := f₀.ids_perm_adopt claim s₁
      have hperm := ids_perm_of_visitAll rest rule? _ f' _ s' hrest
      rw [hranges] at hvisit
      rw [hwaiting] at hadopt
      rw [List.perm_iff_count] at hvisit hadopt hperm ⊢
      intro x
      have h₁ := hvisit x
      have h₂ := hadopt x
      have h₃ := hperm x
      simp only [preorderAll, List.count_append] at h₁ h₂ h₃ ⊢
      omega

end

/-! ### A marked tree -/

/-- Marking gives each node of a tree one range. -/
theorem ids_perm_preorder_of_markTree {tree : SyntaxTree} {s : Pass}
    (h : m.markTree tree = .ok s) : s.ranges.ids.Perm tree.preorder := by
  obtain ⟨-, claim, s₁, hvisit, hs⟩ := markTree_cases h
  have hperm := ids_perm_of_visit tree 0 Pass.initial s₁ claim hvisit
  have hinitial : Pass.initial.ranges.ids = [] := rfl
  rw [hinitial, List.nil_append] at hperm
  rcases hs with ⟨⟨span, rfl⟩, rfl⟩ | ⟨waiting, rfl, rfl⟩
  · rwa [Claim.waiting, List.append_nil] at hperm
  · rw [Pass.ids_give]
    exact (List.perm_append_comm.trans ((waiting.reverse_perm).append_left _)).trans hperm

theorem entered_of_markTree {tree : SyntaxTree} {s : Pass} (h : m.markTree tree = .ok s) :
    s.entered.reverse = tree.preorder := by
  obtain ⟨-, claim, s₁, hvisit, hs⟩ := markTree_cases h
  have hentered := (visit_entered tree 0 Pass.initial).1 claim s₁ hvisit
  rcases hs with ⟨-, rfl⟩ | ⟨waiting, -, rfl⟩
  · simp [hentered, Pass.initial]
  · simp [hentered, Pass.initial]

theorem entered_prefix_of_markTree_eq_error {tree : SyntaxTree} {failure : MarkFailure}
    (h : m.markTree tree = .error failure) : failure.entered.reverse <+: tree.preorder := by
  rcases markTree_eq_error h with hnil | hvisit
  · rw [hnil]
    exact List.nil_prefix
  · obtain ⟨part, hpart, heq⟩ := (visit_entered tree 0 Pass.initial).2 failure hvisit
    simpa [heq, Pass.initial] using hpart

end Marker

variable {source : Source} {policy : PolicyTable} {g : NodeTable} {root : NodeId}

/-- The nodes with a range in the table of a marked graph are those of the walk, each once. -/
theorem ids_perm_walk_of_mark {ranges : RangeTable} (h : mark source policy g root = .ok ranges) :
    ranges.ids.Perm (g.walk root) := by
  obtain ⟨s, hs, rfl⟩ := exists_of_mark_eq_ok h
  rw [← NodeTable.preorder_unfolding]
  exact Marker.ids_perm_preorder_of_markTree hs

/-- **Marking follows the walk and leaves no node out.** The tree that is marked is what a depth-first visit
of the root makes: all children of a node that have not been seen are visited, so no branch ends at the bound
on its depth. The walk visits no node twice. Where marking stops with an error, the nodes it has entered are
the first ones of the walk, in the order of the walk; where it ends well they are all of them, and the nodes
that have a range then are exactly the nodes of the walk. -/
theorem marking_covers_walk (source : Source) (policy : PolicyTable) (g : NodeTable)
    (root : NodeId) :
    Visits g (g.shape root) [] [root] [g.unfolding root] ∧
      (g.walk root).Nodup ∧
      (∀ failure, (Marker.new source policy).markTree (g.unfolding root) = .error failure →
        failure.entered.reverse <+: g.walk root) ∧
      (∀ s, (Marker.new source policy).markTree (g.unfolding root) = .ok s →
        s.entered.reverse = g.walk root) ∧
      ∀ ranges, mark source policy g root = .ok ranges →
        ranges.ids.Nodup ∧ ∀ id, ranges.contains id = true ↔ id ∈ g.walk root := by
  refine ⟨g.visits_unfolding root, g.nodup_walk root, fun failure h => ?_, fun s h => ?_,
    fun ranges h => ?_⟩
  · rw [← NodeTable.preorder_unfolding]
    exact Marker.entered_prefix_of_markTree_eq_error h
  · rw [← NodeTable.preorder_unfolding]
    exact Marker.entered_of_markTree h
  · have hperm := ids_perm_walk_of_mark h
    refine ⟨hperm.nodup_iff.2 (g.nodup_walk root), fun id => ?_⟩
    rw [RangeTable.contains_iff_mem_ids, hperm.mem_iff]

/-- The source of the line `x`. -/
def nameSource : Source :=
  Source.build ['x', '\n'] [
    ⟨.name, ['x'], ⟨1, 0⟩, ⟨1, 1⟩, ['x', '\n']⟩,
    ⟨.newline, ['\n'], ⟨1, 1⟩, ⟨2, 0⟩, ['x', '\n']⟩,
    ⟨.endMarker, [], ⟨2, 0⟩, ⟨2, 0⟩, []⟩]

/-- The node `2` stands for the name and is listed twice, and `3` has no token and leads back to the root. -/
def waitingGraph : NodeTable where
  nodes := [
    (1, ⟨"A", some [2, 3, 2], [], none, none⟩),
    (2, ⟨"B", some [], [], none, some (.text ['x'])⟩),
    (3, ⟨"C", some [1], [], none, none⟩)]

/-- The node `4` stands for a name that is not there, and `5` comes after it. -/
def exhaustedGraph : NodeTable where
  nodes := [
    (1, ⟨"A", some [2, 3, 4, 5], [], none, none⟩),
    (2, ⟨"B", some [], [], none, some (.text ['x'])⟩),
    (3, ⟨"C", some [1], [], none, none⟩),
    (4, ⟨"B", some [], [], none, some (.text ['y'])⟩),
    (5, ⟨"C", some [], [], none, none⟩)]

/-- In `waitingGraph` the node `3` waits until the root is left, and is put after it. In `exhaustedGraph`
marking stops at the node `4`, the fourth one of the walk. -/
theorem marking_covers_walk_waiting :
    (Marker.new nameSource .empty).markTree (waitingGraph.unfolding 1) =
        .ok ⟨1, ⟨[(3, .emptyAfter 0), (1, .ofTokens 0 0), (2, .ofTokens 0 0)]⟩, [3, 2, 1]⟩ ∧
      waitingGraph.walk 1 = [1, 2, 3] ∧
      (Marker.new nameSource .empty).markTree (exhaustedGraph.unfolding 1) =
        .error ⟨.tokensExhausted 4 "B" (.text ['y']), [4, 3, 2, 1]⟩ ∧
      exhaustedGraph.walk 1 = [1, 2, 3, 4, 5] ∧ [1, 2, 3, 4] <+: exhaustedGraph.walk 1 := by
  have hwaiting : (Marker.new nameSource .empty).markTree (waitingGraph.unfolding 1) =
      .ok ⟨1, ⟨[(3, .emptyAfter 0), (1, .ofTokens 0 0), (2, .ofTokens 0 0)]⟩, [3, 2, 1]⟩ := by
    decide +kernel
  have hexhausted : (Marker.new nameSource .empty).markTree (exhaustedGraph.unfolding 1) =
      .error ⟨.tokensExhausted 4 "B" (.text ['y']), [4, 3, 2, 1]⟩ := by decide +kernel
  have hwalk : exhaustedGraph.walk 1 = [1, 2, 3, 4, 5] := by
    rw [← NodeTable.preorder_unfolding]
    decide
  obtain ⟨-, -, -, hentered, -⟩ := marking_covers_walk nameSource .empty waitingGraph 1
  obtain ⟨-, -, hfailure, -⟩ := marking_covers_walk nameSource .empty exhaustedGraph 1
  exact ⟨hwaiting, (hentered _ hwaiting).symm, hexhausted, hwalk, hfailure _ hexhausted⟩

end SourceSpans
