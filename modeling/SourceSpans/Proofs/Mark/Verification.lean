import SourceSpans.Mark.Verify
import SourceSpans.Proofs.Mark.Nesting
import SourceSpans.Proofs.Source.Offsets
import SourceSpans.Proofs.Tree.Strangers

/-!
# Checking the ranges of a marked tree

The check visits the nodes by adoption: it compares a node with the one that adopts it and with those
adopted just before it (`Annotated.verify_eq_ok_iff`). Marking takes the parent for this. The two agree
on trees, and wherever nodes are shared only downward; elsewhere the check compares some nodes with
strangers, about which marking promises nothing.

* **Order** (`Annotated.verify_eq`): the check reports what is wrong first with the root and with the families
  of adopted nodes, in the order of adoption.
* **Families** (`lieIn_of_parents`): children that their parent adopts pass the check.
* **Marked graphs** (`verify_of_mark_iff`): the ranges of a marked graph pass if and only if
  the families with a stranger among them do. There is no stranger if and only if whoever lists a
  node lies under the parent of the node.
-/

namespace SourceSpans

namespace Annotated

variable {a : Annotated} {g : NodeTable} {root : NodeId}

/-- The byte offsets of a node; those of the start of the text for a node without a range. -/
def offsets (a : Annotated) (id : NodeId) : Nat × Nat :=
  match a.ranges.get? id with
  | some r => r.textRange a.source
  | none => (0, 0)

theorem offsets_of_get? {id : NodeId} {r : TokenRange} (h : a.ranges.get? id = some r) :
    a.offsets id = r.textRange a.source := by
  rw [offsets, h]

theorem spanOf_of_get? {id : NodeId} {r : TokenRange} (h : a.ranges.get? id = some r) :
    a.spanOf g id = .ok (a.offsets id) := by
  rw [offsets_of_get? h]
  unfold spanOf textRange range
  rw [h]
  rfl

theorem spanOf_of_get?_eq_none {id : NodeId} (h : a.ranges.get? id = none) :
    a.spanOf g id = .error (.notMarked id (g.kind id)) := by
  unfold spanOf textRange range
  rw [h]
  rfl

/-- Nodes lie between two offsets, each after the one before it and the first after `previousStop`. -/
def LieIn (a : Annotated) (parent : Nat × Nat) : (previousStop : Nat) → List NodeId → Prop
  | _, [] => True
  | previousStop, id :: rest =>
      (parent.1 ≤ (a.offsets id).1 ∧ (a.offsets id).2 ≤ parent.2 ∧
        previousStop ≤ (a.offsets id).1) ∧ LieIn a parent (a.offsets id).2 rest

/-- Nodes lie one after the other between the ends of a parent if they lie between them and each starts where
the one before it stops or after it. -/
theorem lieIn_iff {parent : Nat × Nat} {ids : List NodeId} :
    a.LieIn parent parent.1 ids ↔
      (∀ c ∈ ids, parent.1 ≤ (a.offsets c).1 ∧ (a.offsets c).2 ≤ parent.2) ∧
        ids.IsChain fun b c => (a.offsets b).2 ≤ (a.offsets c).1 := by
  have hgeneral : ∀ previousStop, a.LieIn parent previousStop ids ↔
      (∀ c ∈ ids, parent.1 ≤ (a.offsets c).1 ∧ (a.offsets c).2 ≤ parent.2) ∧
        (∀ c ∈ ids.head?, previousStop ≤ (a.offsets c).1) ∧
        ids.IsChain fun b c => (a.offsets b).2 ≤ (a.offsets c).1 := by
    induction ids with
    | nil => simp [LieIn]
    | cons c ids ih =>
      intro previousStop
      rw [LieIn, ih, List.isChain_cons, List.forall_mem_cons]
      simp only [List.head?_cons, Option.mem_def, Option.some.injEq, forall_eq']
      tauto
  rw [hgeneral]
  refine ⟨fun h => ⟨h.1, h.2.2⟩, fun h => ⟨h.1, fun c hc => ?_, h.2⟩⟩
  exact (h.1 c (List.mem_of_mem_head? hc)).1

/-! ### The check by families -/

theorem childViolation?_eq_none_iff {parent span : Nat × Nat} {previousStop : Nat} {id : NodeId} :
    childViolation? g parent span previousStop id = none ↔
      parent.1 ≤ span.1 ∧ span.2 ≤ parent.2 ∧ previousStop ≤ span.1 := by
  unfold childViolation?
  split_ifs with houtside hoverlap
  · exact iff_of_false nofun (by omega)
  · exact iff_of_false nofun (by omega)
  · exact iff_of_true rfl (by omega)

theorem childViolation?_ne_notMarked {parent span : Nat × Nat} {previousStop : Nat}
    {id node : NodeId} {kind : String} :
    childViolation? g parent span previousStop id ≠ some (.notMarked node kind) := by
  unfold childViolation?
  split_ifs <;> nofun

/-- What is wrong first with nodes that are to lie between two offsets, each after the one before it and
the first after `previousStop`. -/
def familyViolation? (a : Annotated) (g : NodeTable) (parent : Nat × Nat) :
    (previousStop : Nat) → List NodeId → Option RangeViolation
  | _, [] => none
  | previousStop, id :: rest =>
      match a.spanOf g id with
      | .error violation => some violation
      | .ok span => (childViolation? g parent span previousStop id).or
          (familyViolation? a g parent span.2 rest)

theorem familyViolation?_cons_of_get? {parent : Nat × Nat} {previousStop : Nat} {id : NodeId}
    {rest : List NodeId} {r : TokenRange} (h : a.ranges.get? id = some r) :
    a.familyViolation? g parent previousStop (id :: rest) =
      (childViolation? g parent (a.offsets id) previousStop id).or
        (a.familyViolation? g parent (a.offsets id).2 rest) := by
  rw [familyViolation?, spanOf_of_get? h]

theorem familyViolation?_cons_of_get?_eq_none {parent : Nat × Nat} {previousStop : Nat}
    {id : NodeId} {rest : List NodeId} (h : a.ranges.get? id = none) :
    a.familyViolation? g parent previousStop (id :: rest) = some (.notMarked id (g.kind id)) := by
  rw [familyViolation?, spanOf_of_get?_eq_none h]

/-- Nothing is wrong with a family if all of it has ranges and lies as it should. -/
theorem familyViolation?_eq_none_iff {parent : Nat × Nat} {previousStop : Nat} {ids : List NodeId} :
    a.familyViolation? g parent previousStop ids = none ↔
      (∀ id ∈ ids, ∃ r, a.ranges.get? id = some r) ∧ a.LieIn parent previousStop ids := by
  induction ids generalizing previousStop with
  | nil => exact iff_of_true rfl ⟨fun id hid => absurd hid List.not_mem_nil, trivial⟩
  | cons id ids ih =>
    rcases h : a.ranges.get? id with _ | r
    · rw [familyViolation?_cons_of_get?_eq_none h]
      refine iff_of_false nofun fun hall => ?_
      obtain ⟨r, hr⟩ := hall.1 id List.mem_cons_self
      rw [h] at hr
      cases hr
    · rw [familyViolation?_cons_of_get? h, Option.or_eq_none_iff, childViolation?_eq_none_iff, ih, LieIn,
        List.forall_mem_cons]
      constructor
      · rintro ⟨hlies, hmarked, hrest⟩
        exact ⟨⟨⟨r, h⟩, hmarked⟩, hlies, hrest⟩
      · rintro ⟨⟨-, hmarked⟩, hlies, hrest⟩
        exact ⟨hlies, hmarked, hrest⟩

/-- Where the last one of several nodes stops, or what came before them if there are none. -/
def stopAfter (a : Annotated) (previousStop : Nat) (ids : List NodeId) : Nat :=
  ids.getLast?.elim previousStop fun id => (a.offsets id).2

theorem stopAfter_cons (previousStop : Nat) (id : NodeId) (ids : List NodeId) :
    a.stopAfter previousStop (id :: ids) = a.stopAfter (a.offsets id).2 ids := by
  rw [stopAfter, stopAfter, List.getLast?_cons]
  rcases ids.getLast? with _ | b <;> rfl

/-- What is wrong with a family is wrong with its first node that has no range or is out of place. -/
theorem exists_of_familyViolation?_eq_some {parent : Nat × Nat} {previousStop : Nat}
    {ids : List NodeId} {v : RangeViolation} (h : a.familyViolation? g parent previousStop ids = some v) :
    ∃ before id after, ids = before ++ id :: after ∧
      (∀ b ∈ before, ∃ r, a.ranges.get? b = some r) ∧
      (a.ranges.get? id = none ∧ v = .notMarked id (g.kind id) ∨
        (∃ r, a.ranges.get? id = some r) ∧
          childViolation? g parent (a.offsets id) (a.stopAfter previousStop before) id = some v) := by
  induction ids generalizing previousStop with
  | nil => cases h
  | cons id ids ih =>
    rcases hid : a.ranges.get? id with _ | r
    · rw [familyViolation?_cons_of_get?_eq_none hid, Option.some.injEq] at h
      exact ⟨[], id, ids, rfl, nofun, Or.inl ⟨hid, h.symm⟩⟩
    · rw [familyViolation?_cons_of_get? hid, Option.or_eq_some_iff] at h
      rcases h with h | ⟨-, h⟩
      · exact ⟨[], id, ids, rfl, nofun, Or.inr ⟨⟨r, hid⟩, h⟩⟩
      · obtain ⟨before, c, after, rfl, hmarked, hc⟩ := ih h
        rw [← a.stopAfter_cons previousStop id before] at hc
        exact ⟨id :: before, c, after, rfl, List.forall_mem_cons.2 ⟨⟨r, hid⟩, hmarked⟩, hc⟩

/-- The children of a node are checked as the family of those among them that are new. -/
theorem checkChildren_eq (parent : Nat × Nat) (children : List NodeId) :
    ∀ (previousStop : Nat) (seen stack : List NodeId),
      a.checkChildren g parent previousStop seen (stack.map fun id => (id, a.offsets id)) children =
        match a.familyViolation? g parent previousStop (NodeTable.newIn seen children) with
        | some violation => .error violation
        | none => .ok ((NodeTable.newIn seen children).reverse ++ seen,
            ((NodeTable.newIn seen children).reverse ++ stack).map fun id => (id, a.offsets id)) := by
  induction children with
  | nil => exact fun previousStop seen stack => rfl
  | cons c children ih =>
    intro previousStop seen stack
    by_cases hc : c ∈ seen
    · rw [NodeTable.newIn_cons_of_mem hc, checkChildren, if_pos (by simpa using hc)]
      exact ih previousStop seen stack
    rw [NodeTable.newIn_cons_of_not_mem hc, checkChildren, if_neg (by simpa using hc)]
    rcases h : a.ranges.get? c with _ | r
    · rw [familyViolation?_cons_of_get?_eq_none h, spanOf_of_get?_eq_none h]
    rw [familyViolation?_cons_of_get? h, spanOf_of_get? h]
    rcases hviolation : childViolation? g parent (a.offsets c) previousStop c with _ | violation
    · have ih := ih (a.offsets c).2 (c :: seen) (c :: stack)
      rw [List.map_cons] at ih
      simp only [hviolation, ih, Option.none_or, List.reverse_cons, List.append_assoc,
        List.singleton_append]
    · simp only [hviolation, Option.some_or]

/-- What is wrong first with the nodes that a node adopts. -/
def adoptionViolation? (a : Annotated) (g : NodeTable) (x : NodeId × List NodeId) :
    Option RangeViolation :=
  a.familyViolation? g (a.offsets x.1) (a.offsets x.1).1 x.2

theorem verifyFrom_cons (shape : Shape) (seen : List NodeId) (id : NodeId) (span : Nat × Nat)
    (stack : List (NodeId × Nat × Nat)) :
    a.verifyFrom g shape seen ((id, span) :: stack) =
      match a.checkChildren g span span.1 seen stack (g.children shape id) with
      | .error violation => .error violation
      | .ok (seen', stack') => a.verifyFrom g shape seen' stack' := by
  rw [verifyFrom]
  split <;> rename_i h <;> rw [h]

/-- Checking what lies below the nodes on a stack is checking what they and the nodes below them
adopt. -/
theorem verifyFrom_eq (seen stack : List NodeId) :
    a.verifyFrom g (g.shape root) seen (stack.map fun id => (id, a.offsets id)) =
      match (g.adoptionsFrom (g.shape root) seen stack).findSome? (a.adoptionViolation? g) with
      | some violation => .error violation
      | none => .ok () := by
  fun_induction NodeTable.adoptionsFrom g (g.shape root) seen stack with
  | case1 seen => rw [List.map_nil, verifyFrom, List.findSome?_nil]
  | case2 seen id stack adopted ih =>
    have hfamily : a.adoptionViolation? g (id, adopted) = a.familyViolation? g (a.offsets id)
      (a.offsets id).1 (NodeTable.newIn seen (g.children (g.shape root) id)) := rfl
    rw [List.map_cons, verifyFrom_cons, checkChildren_eq, List.findSome?_cons, hfamily]
    rcases a.familyViolation? g (a.offsets id) (a.offsets id).1
      (NodeTable.newIn seen (g.children (g.shape root) id)) with _ | violation
    · exact ih
    · rfl

/-- What is wrong first with a root and the nodes under it, in the order of adoption. -/
def violation? (a : Annotated) (g : NodeTable) (root : NodeId) : Option RangeViolation :=
  match a.ranges.get? root with
  | none => some (.notMarked root (g.kind root))
  | some _ => (g.adoptions root).findSome? (a.adoptionViolation? g)

/-- **The check reports what is wrong first.** -/
theorem verify_eq (a : Annotated) (g : NodeTable) (root : NodeId) :
    a.verify g root =
      match a.violation? g root with
      | some violation => .error violation
      | none => .ok () := by
  rw [verify, violation?]
  rcases h : a.ranges.get? root with _ | r
  · rw [spanOf_of_get?_eq_none h]
    rfl
  · rw [spanOf_of_get? h]
    exact a.verifyFrom_eq [root] [root]

theorem verify_eq_ok_iff_violation? : a.verify g root = .ok () ↔ a.violation? g root = none := by
  rw [verify_eq]
  rcases a.violation? g root with _ | violation
  · exact iff_of_true rfl rfl
  · exact iff_of_false nofun nofun

theorem verify_eq_error_iff {v : RangeViolation} :
    a.verify g root = .error v ↔ a.violation? g root = some v := by
  rw [verify_eq]
  rcases a.violation? g root with _ | violation
  · exact iff_of_false nofun nofun
  · rw [Except.error.injEq, Option.some.injEq]

/-- Nothing is wrong if the root has a range, and each family has ranges and lies as it should. -/
theorem violation?_eq_none_iff :
    a.violation? g root = none ↔ (∃ r, a.ranges.get? root = some r) ∧
      ∀ x ∈ g.adoptions root, (∀ id ∈ x.2, ∃ r, a.ranges.get? id = some r) ∧
        a.LieIn (a.offsets x.1) (a.offsets x.1).1 x.2 := by
  unfold violation?
  rcases h : a.ranges.get? root with _ | r
  · exact iff_of_false nofun nofun
  · simp only [List.findSome?_eq_none_iff, adoptionViolation?, familyViolation?_eq_none_iff]
    exact ⟨fun hall => ⟨⟨r, rfl⟩, hall⟩, fun hall => hall.2⟩

/-- What is wrong first is wrong with the root, or with a family whose adopting node has a range. -/
theorem exists_of_violation?_eq_some {v : RangeViolation} (h : a.violation? g root = some v) :
    a.ranges.get? root = none ∧ v = .notMarked root (g.kind root) ∨
      ∃ p adopted, (p, adopted) ∈ g.adoptions root ∧ (∃ r, a.ranges.get? p = some r) ∧
        a.familyViolation? g (a.offsets p) (a.offsets p).1 adopted = some v := by
  unfold violation? at h
  rcases hroot : a.ranges.get? root with _ | r
  · rw [hroot] at h
    exact Or.inl ⟨rfl, (Option.some.inj h).symm⟩
  · rw [hroot] at h
    obtain ⟨done, ⟨p, adopted⟩, later, hsplit, hfamily, hdone⟩ := List.findSome?_eq_some_iff.1 h
    have hmem : (p, adopted) ∈ g.adoptions root := by
      rw [hsplit]
      exact List.mem_append_right _ List.mem_cons_self
    refine Or.inr ⟨p, adopted, hmem, ?_, hfamily⟩
    -- the adopting node has been adopted itself, in a family with which nothing was wrong
    rcases NodeTable.mem_or_adopted_of_adoptionsFrom_eq done hsplit with hp | ⟨y, hy, hp⟩
    · obtain rfl := List.mem_singleton.1 hp
      exact ⟨r, hroot⟩
    · exact (familyViolation?_eq_none_iff.1 (hdone y hy)).1 p hp

/-- **A check of marked nodes is a check of all that is adopted.** It never fails for want of a
range. -/
theorem verify_eq_ok_iff (hmarked : ∀ id ∈ g.walk root, ∃ r, a.ranges.get? id = some r) :
    (a.verify g root = .ok () ↔
      ∀ x ∈ g.adoptions root, a.LieIn (a.offsets x.1) (a.offsets x.1).1 x.2) ∧
    ∀ id kind, a.verify g root ≠ .error (.notMarked id kind) := by
  have hadopted : ∀ x ∈ g.adoptions root, ∀ id ∈ x.2, ∃ r, a.ranges.get? id = some r := by
    intro x hx id hid
    obtain ⟨hp, seen, heq⟩ := NodeTable.of_mem_adoptions hx
    rw [heq] at hid
    exact hmarked id (NodeTable.mem_walk_of_mem_children hp (NodeTable.mem_newIn.1 hid).1)
  constructor
  · rw [verify_eq_ok_iff_violation?, violation?_eq_none_iff]
    constructor
    · exact fun h x hx => (h.2 x hx).2
    · exact fun h => ⟨hmarked root (g.mem_walk_self root), fun x hx => ⟨hadopted x hx, h x hx⟩⟩
  · intro id kind herror
    rcases exists_of_violation?_eq_some (verify_eq_error_iff.1 herror) with
      ⟨hnone, -⟩ | ⟨p, adopted, hmem, -, hfamily⟩
    · obtain ⟨r, hr⟩ := hmarked root (g.mem_walk_self root)
      rw [hnone] at hr
      cases hr
    · obtain ⟨before, c, after, hids, -, hc⟩ := exists_of_familyViolation?_eq_some hfamily
      rcases hc with ⟨hnone, -⟩ | ⟨-, hviolation⟩
      · obtain ⟨r, hr⟩ := hadopted _ hmem c (by simp [hids])
        rw [hnone] at hr
        cases hr
      · exact childViolation?_ne_notMarked hviolation

end Annotated

/-! ### Marked graphs -/

section marked

variable {text : Text} {source : Source} {policy : PolicyTable} {g : NodeTable} {root : NodeId}
  {ranges : RangeTable}

/-- Children that a node of a marked graph adopts as their parent lie in it, one after the other. -/
theorem lieIn_of_parents (hmark : mark source policy g root = .ok ranges) (horder : source.InOrder)
    {p : NodeId} {adopted : List NodeId} (h : (p, adopted) ∈ g.adoptions root)
    (hp : ∀ c ∈ adopted, g.parent? root c = some p) :
    (⟨source, ranges⟩ : Annotated).LieIn ((⟨source, ranges⟩ : Annotated).offsets p)
      ((⟨source, ranges⟩ : Annotated).offsets p).1 adopted := by
  obtain ⟨r, hr⟩ := exists_get?_of_mark hmark (NodeTable.of_mem_adoptions h).1
  have hget : ∀ c ∈ adopted, ∃ s, ranges.get? c = some s := fun c hc =>
    exists_get?_of_mark hmark (NodeTable.of_parent?_eq_some (hp c hc)).2.2
  have hinside : ∀ c ∈ adopted,
      (r.textRange source).1 ≤ ((⟨source, ranges⟩ : Annotated).offsets c).1 ∧
        ((⟨source, ranges⟩ : Annotated).offsets c).2 ≤ (r.textRange source).2 := by
    intro c hc
    obtain ⟨s, hs⟩ := hget c hc
    obtain ⟨hlo, -, hhi⟩ := textRange_of_parent? hmark horder (hp c hc) hr hs
    rw [Annotated.offsets_of_get? hs]
    exact ⟨hlo, hhi⟩
  rw [Annotated.offsets_of_get? hr]
  refine Annotated.lieIn_iff.2 ⟨hinside, List.Pairwise.isChain ?_⟩
  have hpairwise := (textRange_pairwise_reachedFrom hmark horder p).sublist
    (NodeTable.adopted_sublist_reachedFrom h hp)
  refine hpairwise.imp_of_mem fun {b c} hb hc hbc => ?_
  obtain ⟨r', hr'⟩ := hget b hb
  obtain ⟨s', hs'⟩ := hget c hc
  rw [Annotated.offsets_of_get? hr', Annotated.offsets_of_get? hs']
  exact hbc r' s' hr' hs'

/-- **The ranges of a marked graph pass the check if and only if the strangers lie well.** The check
never misses a range. It succeeds exactly if every family in which a node is adopted by another one than
its parent lies in the adopting node, one after the other. There is no such family exactly if whoever
lists a node lies under the parent of the node, as in all trees: the check always succeeds then. -/
theorem verify_of_mark_iff (hsource : Source.ofText? text = .ok source)
    (hmark : mark source policy g root = .ok ranges) :
    (∀ id kind, (⟨source, ranges⟩ : Annotated).verify g root ≠ .error (.notMarked id kind)) ∧
      ((⟨source, ranges⟩ : Annotated).verify g root = .ok () ↔
        ∀ p adopted, (p, adopted) ∈ g.adoptions root →
          (∃ c ∈ adopted, g.parent? root c ≠ some p) →
          (⟨source, ranges⟩ : Annotated).LieIn ((⟨source, ranges⟩ : Annotated).offsets p)
            ((⟨source, ranges⟩ : Annotated).offsets p).1 adopted) ∧
      (g.ListedUnderParents root ↔ ∀ p adopted, (p, adopted) ∈ g.adoptions root →
        ∀ c ∈ adopted, g.parent? root c = some p) ∧
      (g.ListedUnderParents root → (⟨source, ranges⟩ : Annotated).verify g root = .ok ()) := by
  have horder := Source.inOrder_of_ofText? hsource
  have hmarked : ∀ id ∈ g.walk root, ∃ r, ranges.get? id = some r := fun id hid =>
    exists_get?_of_mark hmark hid
  obtain ⟨hiff, hnot⟩ := @Annotated.verify_eq_ok_iff ⟨source, ranges⟩ g root hmarked
  have hstrangers : (⟨source, ranges⟩ : Annotated).verify g root = .ok () ↔
      ∀ p adopted, (p, adopted) ∈ g.adoptions root →
        (∃ c ∈ adopted, g.parent? root c ≠ some p) →
        (⟨source, ranges⟩ : Annotated).LieIn ((⟨source, ranges⟩ : Annotated).offsets p)
          ((⟨source, ranges⟩ : Annotated).offsets p).1 adopted := by
    rw [hiff]
    constructor
    · exact fun h p adopted hmem _ => h (p, adopted) hmem
    · rintro h ⟨p, adopted⟩ hmem
      by_cases hp : ∃ c ∈ adopted, g.parent? root c ≠ some p
      · exact h p adopted hmem hp
      · push Not at hp
        exact lieIn_of_parents hmark horder hmem hp
  refine ⟨hnot, hstrangers, NodeTable.listedUnderParents_iff, fun hg => hstrangers.2 ?_⟩
  rintro p adopted hmem ⟨c, hc, hne⟩
  exact absurd (NodeTable.parent?_of_mem_adoptions hg hmem c hc) hne

end marked

/-! ### Nodes that are shared -/

/-- Three nodes for the same token, each listing the next one, and itself or nodes above it. -/
def loopGraph : NodeTable where
  nodes := [
    (1, ⟨"A", some [2, 1], [], none, none⟩),
    (2, ⟨"B", some [3, 2], [], none, none⟩),
    (3, ⟨"C", some [1, 2], [], none, some (.text ['x'])⟩)]

/-- The token of each of three nodes, one below the other. -/
def nameRanges : RangeTable where
  entries := [(1, .ofTokens 0 0), (2, .ofTokens 0 0), (3, .ofTokens 0 0)]

theorem listedUnderParents_loopGraph : loopGraph.ListedUnderParents 1 := by
  have hwalk : loopGraph.walk 1 = [1, 2, 3] := by
    rw [← NodeTable.preorder_unfolding]
    rfl
  have h₂ : loopGraph.parent? 1 2 = some 1 := by
    rw [NodeTable.parent?, hwalk]
    rfl
  have h₃ : loopGraph.parent? 1 3 = some 2 := by
    rw [NodeTable.parent?, hwalk]
    rfl
  have hroot : ∀ u ∈ loopGraph.walk 1, loopGraph.LiesUnder 1 1 u := by
    have hunder₂ : loopGraph.LiesUnder 1 1 2 := .child h₂ .self
    have hunder₃ : loopGraph.LiesUnder 1 1 3 := .child h₃ hunder₂
    rw [hwalk]
    simpa using ⟨.self, hunder₂, hunder₃⟩
  intro u hu c hc p hp
  have hc' : c ∈ loopGraph.walk 1 := NodeTable.mem_walk_of_mem_children hu hc
  rw [hwalk] at hc'
  simp only [List.mem_cons, List.not_mem_nil, or_false] at hc'
  rcases hc' with rfl | rfl | rfl
  · rw [NodeTable.parent?_root] at hp
    cases hp
  · obtain rfl := Option.some.inj (h₂.symm.trans hp)
    exact hroot u hu
  · obtain rfl := Option.some.inj (h₃.symm.trans hp)
    -- only its parent lists the last node
    rw [hwalk] at hu
    simp only [List.mem_cons, List.not_mem_nil, or_false] at hu
    rcases hu with rfl | rfl | rfl
    · exact absurd hc (by decide)
    · exact .self
    · exact absurd hc (by decide)

theorem verify_of_mark_loopGraph :
    Source.ofText? ['x', '\n'] = .ok nameSource ∧
      mark nameSource .empty loopGraph 1 = .ok nameRanges ∧ loopGraph.ListedUnderParents 1 ∧
      (⟨nameSource, nameRanges⟩ : Annotated).verify loopGraph 1 = .ok () := by
  have hsource : Source.ofText? ['x', '\n'] = .ok nameSource := by decide +kernel
  have hmark : mark nameSource .empty loopGraph 1 = .ok nameRanges := by decide +kernel
  exact ⟨hsource, hmark, listedUnderParents_loopGraph,
    (verify_of_mark_iff hsource hmark).2.2.2 listedUnderParents_loopGraph⟩

/-- Three nodes of which the first lists both others and the second lists the third. -/
def sharedGraph : NodeTable where
  nodes := [
    (1, ⟨"A", some [2, 3], [], none, none⟩),
    (2, ⟨"B", some [3], [], none, none⟩),
    (3, ⟨"C", some [], [], none, some (.text ['x'])⟩)]

/-- The check takes the third node for a sibling of the second one, in which it lies. -/
theorem verify_fails_on_sharedGraph :
    Source.ofText? ['x', '\n'] = .ok nameSource ∧
      mark nameSource .empty sharedGraph 1 = .ok nameRanges ∧
      (⟨nameSource, nameRanges⟩ : Annotated).verify sharedGraph 1 =
        .error (.siblingOverlap 3 "C" 0 1) := by
  decide +kernel

end SourceSpans
