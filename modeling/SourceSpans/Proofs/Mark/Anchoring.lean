import SourceSpans.Proofs.Mark.Visits

/-!
# Where nodes without tokens stand

A node without tokens waits until its place is known, and all that wait together get the same place. It is
told by what comes after them in the final table (`empty_nodes_anchored`).

* **Taking tokens** (`Marker.Takes`): a node takes tokens for itself by its head, its `intro`, its literal or
  the `empty` pattern of its rule. A visit claims nothing if and only if its node takes nothing for itself
  and no child has tokens (`Marker.span?_eq_none_iff_of_visit`).
* **One place** (`RangeTable.PutsAt`): seen from the final table, the nodes that wait at some state of a visit
  all have one empty range. Each step of a visit, read backwards, keeps this: when a child with tokens is
  adopted the range is the one before the child, when the node is left with tokens it is the one after the
  node, and otherwise those that wait go on waiting.
* **Siblings** (`RangeTable.PutsAt.of_visitAll`): so what waits before the children that are left stands before
  the first one of them with tokens, if there is one.
-/

namespace SourceSpans

open SyntaxTree (subtrees subtreesAll preorder preorderAll)

namespace RangeTable

variable {t : RangeTable} {id : NodeId} {ids : List NodeId} {r r' : TokenRange}

/-- The tokens of the first of several nodes that has any. -/
def firstSpan? (t : RangeTable) (ids : List NodeId) : Option Span :=
  ids.findSome? fun id => (t.get? id).bind TokenRange.span?

/-- The empty range right before the first of several nodes that has tokens, or else another range. -/
def placeBefore (t : RangeTable) (ids : List NodeId) (r : TokenRange) : TokenRange :=
  (t.firstSpan? ids).elim r fun span => .emptyBefore span.first

theorem placeBefore_cons {claim : Claim} (h : claim.IsGiven t id) :
    t.placeBefore (id :: ids) r =
      claim.span?.elim (t.placeBefore ids r) fun span => .emptyBefore span.first := by
  unfold placeBefore firstSpan?
  rw [List.findSome?_cons]
  cases claim with
  | tokens span =>
    rw [show t.get? id = _ from h]
    rfl
  | nothing waiting =>
    obtain ⟨r, hr, hempty⟩ := h
    rw [hr, Option.bind_some, TokenRange.span?, if_pos hempty]
    rfl

/-- A table keeps the ranges given so far, and all nodes that wait have one empty range in it. -/
structure PutsAt (t : RangeTable) (s : Pass) (waiting : List NodeId) (r : TokenRange) : Prop where
  subset : s.ranges.entries ⊆ t.entries
  isEmpty : r.isEmpty = true
  given : ∀ id ∈ waiting, (id, r) ∈ t.entries

namespace PutsAt

variable {s s' : Pass} {waiting waiting' : List NodeId} {m : Marker}

theorem settles (h : t.PutsAt s waiting r) : t.Settles s waiting :=
  ⟨h.subset, fun id hid => ⟨r, h.given id hid, h.isEmpty⟩⟩

theorem mono (h : t.PutsAt s' waiting' r) (hsub : s.ranges.entries ⊆ s'.ranges.entries)
    (hwaiting : waiting ⊆ waiting') : t.PutsAt s waiting r :=
  ⟨List.Subset.trans hsub h.subset, h.isEmpty, fun id hid => h.given id (hwaiting hid)⟩

/-- Nodes that are given an empty range waited for it. -/
theorem of_give (h : t.PutsAt (s.give ids r) [] r') (hr : r.isEmpty = true) : t.PutsAt s ids r :=
  ⟨fun _ he => h.subset (Pass.mem_entries_give.2 (Or.inr he)), hr,
    fun _ hid => h.subset (Pass.mem_give hid r)⟩

/-- What waited before a child is adopted, in the frame or in the child, stands before the child if this has
tokens. -/
theorem of_adopt {f : Frame} {claim : Claim}
    (h : t.PutsAt (f.adopt claim s).2 (f.adopt claim s).1.waiting r) :
    t.PutsAt s (f.waiting ++ claim.waiting)
      (claim.span?.elim r fun span => .emptyBefore span.first) := by
  cases claim with
  | tokens span =>
    rw [Claim.waiting, List.append_nil]
    exact of_give h rfl
  | nothing waiting => exact h

/-- What waited before a node is left stands after the node if this has tokens. -/
theorem of_leave {kind : String} {literal? : Option Literal} {rule? : Option Rule} {parentFloor : Nat}
    {f : Frame} {claim : Claim} (hleave : m.leave id kind literal? rule? parentFloor f s = .ok (claim, s'))
    (h : t.PutsAt s' claim.waiting r) :
    t.PutsAt s f.waiting (claim.span?.elim r fun span => .emptyAfter span.last) := by
  rcases Marker.leave_cases hleave with ⟨-, rfl, rfl⟩ | ⟨_, span, -, -, rfl, -, -, hgiven⟩
  · exact h.mono (List.Subset.refl _) (List.subset_append_left _ _)
  · have hgive : t.PutsAt ((s.give [id] (TokenRange.ofTokens span.first span.last)).give f.waiting
        (TokenRange.emptyAfter span.last)) [] r := ⟨hgiven ▸ h.subset, h.isEmpty, nofun⟩
    have hown : s.ranges.entries ⊆
        (s.give [id] (TokenRange.ofTokens span.first span.last)).ranges.entries := fun e he =>
      Pass.mem_entries_give.2 (Or.inr he)
    exact (hgive.of_give rfl).mono hown (List.Subset.refl _)

/-- What waits before the children that are left stands before the first of them that has tokens. -/
theorem of_visitAll {rule? : Option Rule} {ts : List SyntaxTree} {f f' : Frame} (hnodup : t.ids.Nodup)
    (hall : m.visitAll rule? ts f s = .ok (f', s')) (h : t.PutsAt s' f'.waiting r) :
    t.PutsAt s f.waiting (t.placeBefore (ts.map SyntaxTree.id) r) := by
  induction ts generalizing f s with
  | nil =>
    obtain ⟨rfl, rfl⟩ := Prod.mk.inj (Except.ok.inj hall)
    exact h
  | cons child rest ih =>
    rcases hintro : m.introduce rule? f s with ⟨f₀, s₀⟩
    obtain ⟨-, -, hwaiting, hranges, -, -⟩ := Marker.introduce_eq hintro
    rw [Marker.visitAll_cons, hintro] at hall
    obtain ⟨⟨claim, s₁⟩, hchild, hrest⟩ := bind_eq_ok hall
    have hadopted := (ih hrest).of_adopt
    have hgiven := Marker.given_of_visit hnodup hchild
      (hadopted.settles.mono (List.Subset.refl _) (List.subset_append_right _ _))
    rw [List.map_cons, placeBefore_cons hgiven, ← hwaiting]
    refine hadopted.mono ?_ (List.subset_append_left _ _)
    rw [← hranges]
    exact (Marker.visit_places child hchild).2.subset

/-- In a visit of children that has ended well each child has been visited, and what it hands on stands
before the first of the children after it that has tokens. -/
theorem of_child {rule? : Option Rule} {earlier later : List SyntaxTree} {child : SyntaxTree}
    {f f₁ f' : Frame} {s₁ : Pass} (hnodup : t.ids.Nodup)
    (hearlier : m.visitAll rule? earlier f s = .ok (f₁, s₁))
    (hall : m.visitAll rule? (earlier ++ child :: later) f s = .ok (f', s'))
    (h : t.PutsAt s' f'.waiting r) :
    ∃ claim s₂, m.visit (m.introduce rule? f₁ s₁).1.floor child (m.introduce rule? f₁ s₁).2 =
        .ok (claim, s₂) ∧
      t.PutsAt s₂ claim.waiting (claim.span?.elim (t.placeBefore (later.map SyntaxTree.id) r)
        fun span => .emptyBefore span.first) := by
  rw [Marker.visitAll_append, hearlier] at hall
  replace hall := (Marker.visitAll_cons _ _ _ _ _).symm.trans hall
  obtain ⟨⟨claim, s₂⟩, hchild, hrest⟩ := bind_eq_ok hall
  exact ⟨claim, s₂, hchild,
    (of_visitAll hnodup hrest h).of_adopt.mono (List.Subset.refl _) (List.subset_append_right _ _)⟩

end PutsAt

end RangeTable

/-- A node to which nothing is given has an empty range, and only such a node has one. -/
theorem Claim.IsGiven.isEmpty_iff {t : RangeTable} {id : NodeId} {claim : Claim} {r : TokenRange}
    (h : claim.IsGiven t id) (hr : t.get? id = some r) : r.isEmpty = true ↔ claim.span? = none := by
  cases claim with
  | tokens span =>
    obtain rfl := Option.some.inj (hr.symm.trans h)
    simp [TokenRange.isEmpty, TokenRange.ofTokens, Claim.span?]
  | nothing waiting =>
    obtain ⟨r', hr', hempty⟩ := h
    obtain rfl := Option.some.inj (hr.symm.trans hr')
    simp [hempty, Claim.span?]

theorem RangeTable.spansOf_eq_nil_iff {t : RangeTable} {trees : List SyntaxTree} :
    t.spansOf trees = [] ↔ ∀ c ∈ trees, ∀ r, t.get? c.id = some r → r.isEmpty = true := by
  unfold spansOf
  rw [List.filterMap_eq_nil_iff]
  refine forall₂_congr fun c _ => ?_
  rcases t.get? c.id with _ | r
  · simp
  · simp [TokenRange.span?]

namespace Marker

variable {m : Marker}

/-! ### Taking tokens -/

variable (m) in
/-- The tokens that a node takes for itself when it is visited: the head of its rule; the `intro`, which is
tried before each child until it is found; and if there is none of these and no child has tokens, its literal
or the `empty` pattern of its rule. -/
inductive Takes : Visit → Span → Prop
  | head {parentFloor : Nat} {id : NodeId} {kind : String} {literal? : Option Literal}
      {children : List SyntaxTree} {before : Pass} {span : Span}
      (hhead : (m.enter id (m.policy.rule? kind) parentFloor before).1.head? = some span) :
      Takes ⟨parentFloor, .node id kind literal? children, before⟩ span
  | intro {parentFloor : Nat} {id : NodeId} {kind : String} {literal? : Option Literal}
      {earlier later : List SyntaxTree} {child : SyntaxTree} {before s : Pass} {f : Frame} {span : Span}
      (hearlier : m.visitAll (m.policy.rule? kind) earlier
        (m.enter id (m.policy.rule? kind) parentFloor before).1
        (m.enter id (m.policy.rule? kind) parentFloor before).2 = .ok (f, s))
      (hintroduced : f.introduced = false)
      (hintro : ((m.policy.rule? kind).bind fun r => m.introAt? r s.cursor) = some span) :
      Takes ⟨parentFloor, .node id kind literal? (earlier ++ child :: later), before⟩ span
  | literal {parentFloor : Nat} {id : NodeId} {kind : String} {l : Literal} {children : List SyntaxTree}
      {before s : Pass} {f : Frame} {span : Span}
      (hall : m.visitAll (m.policy.rule? kind) children
        (m.enter id (m.policy.rule? kind) parentFloor before).1
        (m.enter id (m.policy.rule? kind) parentFloor before).2 = .ok (f, s))
      (hnone : f.hull? = none) (hliteral : m.findLiteral? l s.cursor = some span) :
      Takes ⟨parentFloor, .node id kind (some l) children, before⟩ span
  | empty {parentFloor : Nat} {id : NodeId} {kind : String} {children : List SyntaxTree} {before s : Pass}
      {f : Frame} {span : Span}
      (hall : m.visitAll (m.policy.rule? kind) children
        (m.enter id (m.policy.rule? kind) parentFloor before).1
        (m.enter id (m.policy.rule? kind) parentFloor before).2 = .ok (f, s))
      (hnone : f.hull? = none)
      (hempty : ((m.policy.rule? kind).bind fun r => m.search? r.empty s.cursor parentFloor) =
        some span) :
      Takes ⟨parentFloor, .node id kind none children, before⟩ span

variable {rule? : Option Rule} {f f' : Frame} {s s' : Pass} {claim : Claim}

/-- There is no head after an attempt to introduce a node if there was none and the `intro` is not found.
Such an attempt changes nothing. -/
theorem head?_introduce_eq_none_iff :
    (m.introduce rule? f s).1.head? = none ↔ f.head? = none ∧
      (f.introduced = false → (rule?.bind fun r => m.introAt? r s.cursor) = none) := by
  unfold introduce
  split_ifs with hintroduced
  · simp [hintroduced]
  · rw [Bool.not_eq_true] at hintroduced
    rcases hintro : rule?.bind fun r => m.introAt? r s.cursor with _ | span
    · simp
    · simp [hintroduced]

/-- There is no head after the children if there was none before them and before no child the `intro` is
found. -/
theorem head?_visitAll_eq_none_iff {ts : List SyntaxTree} (h : m.visitAll rule? ts f s = .ok (f', s')) :
    f'.head? = none ↔ f.head? = none ∧ ∀ earlier child later f₁ s₁, ts = earlier ++ child :: later →
      m.visitAll rule? earlier f s = .ok (f₁, s₁) → f₁.introduced = false →
        (rule?.bind fun r => m.introAt? r s₁.cursor) = none := by
  induction ts generalizing f s with
  | nil =>
    obtain ⟨rfl, -⟩ := Prod.mk.inj (Except.ok.inj h)
    simp
  | cons child rest ih =>
    rw [visitAll_cons] at h
    obtain ⟨⟨claim, s₁⟩, hchild, hrest⟩ := bind_eq_ok h
    rw [ih hrest, Frame.head?_adopt, head?_introduce_eq_none_iff, and_assoc]
    refine and_congr_right fun _ => ⟨?_, fun hnone => ⟨?_, ?_⟩⟩
    · -- the `intro` is tried before the first child, or before a child that is left after it
      rintro ⟨hfirst, hlater⟩ earlier c later f₁ s₁ hsplit hearlier hintroduced
      rcases List.cons_eq_append_iff.1 hsplit with ⟨rfl, -⟩ | ⟨earlier, rfl, rfl⟩
      · obtain ⟨rfl, rfl⟩ := Prod.mk.inj (Except.ok.inj hearlier)
        exact hfirst hintroduced
      · rw [visitAll_cons, hchild] at hearlier
        exact hlater earlier c later f₁ s₁ rfl hearlier hintroduced
    · exact fun hintroduced => hnone [] child rest f s rfl (visitAll_nil rule? f s) hintroduced
    · intro earlier c later f₁ s₂ hsplit hearlier hintroduced
      refine hnone (child :: earlier) c later f₁ s₂ (by rw [hsplit]; rfl) ?_ hintroduced
      rw [visitAll_cons, hchild]
      exact hearlier

/-- A node without a hull is left with tokens if and only if it is a leaf with tokens. -/
theorem exists_leaf?_of_leave {id : NodeId} {kind : String} {literal? : Option Literal} {parentFloor : Nat}
    (h : m.leave id kind literal? rule? parentFloor f s = .ok (claim, s')) (hhull : f.hull? = none) :
    ∃ found?, m.leaf? literal? rule? parentFloor s.cursor = .ok found? ∧
      (claim.span? = none ↔ found? = none) := by
  unfold leave at h
  rw [hhull, Option.elim_none] at h
  rcases hleaf : m.leaf? literal? rule? parentFloor s.cursor with wanted | _ | found <;>
    rw [hleaf] at h
  · cases h
  · obtain ⟨rfl, -⟩ := Prod.mk.inj (Except.ok.inj h)
    exact ⟨none, rfl, by simp [Claim.span?]⟩
  · obtain ⟨rfl, -⟩ := Prod.mk.inj (Except.ok.inj h)
    exact ⟨some found, rfl, by simp [Claim.span?]⟩

/-- A node that is left with nothing has no hull. -/
theorem hull?_eq_none_of_leave {id : NodeId} {kind : String} {literal? : Option Literal} {parentFloor : Nat}
    (h : m.leave id kind literal? rule? parentFloor f s = .ok (claim, s')) (hnone : claim.span? = none) :
    f.hull? = none := by
  rcases leave_cases h with ⟨hhull, -, -⟩ | ⟨_, span, -, -, rfl, -⟩
  · exact hhull
  · cases hnone

theorem hull?_eq_none_iff {f : Frame} : f.hull? = none ↔ f.head? = none ∧ f.spans = [] := by
  refine ⟨Frame.of_hull?_eq_none, ?_⟩
  rintro ⟨hhead, hspans⟩
  rw [Frame.hull?, hhead, hspans]
  rfl

/-- **A visit claims nothing if and only if its node takes nothing for itself and no child has tokens.** -/
theorem span?_eq_none_iff_of_visit {t : RangeTable} (hnodup : t.ids.Nodup) {v : Visit}
    (hvisit : m.visit v.parentFloor v.tree v.before = .ok (claim, s'))
    (hsettles : t.Settles s' claim.waiting) :
    claim.span? = none ↔ (∀ span, ¬ m.Takes v span) ∧ t.spansOf v.tree.children = [] := by
  obtain ⟨parentFloor, ⟨id, kind, literal?, children⟩, before⟩ := v
  rw [visit_node] at hvisit
  obtain ⟨⟨f, s⟩, hall, hleave⟩ := bind_eq_ok hvisit
  have hspans : f.spans = t.spansOf children := spans_of_visitAll hnodup hall (hsettles.of_leave hleave)
  constructor
  · intro hnone
    have hhull := hull?_eq_none_of_leave hleave hnone
    obtain ⟨hhead, hnil⟩ := hull?_eq_none_iff.1 hhull
    obtain ⟨hhead₀, hintro₀⟩ := (head?_visitAll_eq_none_iff hall).1 hhead
    obtain ⟨found?, hleaf, hfound⟩ := exists_leaf?_of_leave hleave hhull
    rw [hfound.1 hnone] at hleaf
    refine ⟨fun span htakes => ?_, hspans.symm.trans hnil⟩
    cases htakes with
    | head hhead' => cases hhead₀.symm.trans hhead'
    | intro hearlier hintroduced hintro =>
      cases (hintro₀ _ _ _ _ _ rfl hearlier hintroduced).symm.trans hintro
    | literal hall' _ hliteral =>
      obtain ⟨rfl, rfl⟩ := Prod.mk.inj (Except.ok.inj (hall.symm.trans hall'))
      rw [leaf?, hliteral] at hleaf
      cases hleaf
    | empty hall' _ hempty =>
      obtain ⟨rfl, rfl⟩ := Prod.mk.inj (Except.ok.inj (hall.symm.trans hall'))
      rw [leaf?, hempty] at hleaf
      cases hleaf
  · rintro ⟨htakes, hnil⟩
    have hhead : f.head? = none := by
      rw [head?_visitAll_eq_none_iff hall]
      constructor
      · rw [Option.eq_none_iff_forall_ne_some]
        exact fun span hspan => htakes span (.head hspan)
      · rintro earlier child later f₁ s₁ rfl hearlier hintroduced
        rw [Option.eq_none_iff_forall_ne_some]
        exact fun span hspan => htakes span (.intro hearlier hintroduced hspan)
    have hhull : f.hull? = none := hull?_eq_none_iff.2 ⟨hhead, hspans.trans hnil⟩
    obtain ⟨found?, hleaf, hfound⟩ := exists_leaf?_of_leave hleave hhull
    rw [hfound, Option.eq_none_iff_forall_ne_some]
    rintro span rfl
    rcases literal? with _ | l
    · exact htakes span (.empty hall hhull (Except.ok.inj hleaf))
    · rw [leaf?] at hleaf
      dsimp only at hleaf
      rcases hl : m.findLiteral? l s.cursor with _ | found <;> rw [hl] at hleaf
      · cases hleaf
      · obtain rfl := Option.some.inj (Except.ok.inj hleaf)
        exact htakes found (.literal hall hhull hl)

/-! ### The places of those that wait -/

/-- Where a visit ends well each visit that it makes does, and those that wait at its end have one place. -/
theorem Makes.exists_putsAt {t : RangeTable} (hnodup : t.ids.Nodup) {v w : Visit} (h : m.Makes v w)
    {r : TokenRange} (hvisit : m.visit v.parentFloor v.tree v.before = .ok (claim, s))
    (hputs : t.PutsAt s claim.waiting r) :
    ∃ claim' s' r', m.visit w.parentFloor w.tree w.before = .ok (claim', s') ∧
      t.PutsAt s' claim'.waiting r' := by
  induction h generalizing claim s r with
  | self v => exact ⟨claim, s, r, hvisit, hputs⟩
  | child hearlier h ih =>
    rw [visit_node] at hvisit
    obtain ⟨⟨f₁, s₁⟩, hall, hleave⟩ := bind_eq_ok hvisit
    obtain ⟨claim', s', hchild, hputs'⟩ := (hputs.of_leave hleave).of_child hnodup hearlier hall
    exact ih hchild hputs'

/-- All nodes of a tree that is visited without tokens have the place of those that wait. -/
theorem given_of_span?_eq_none {t : RangeTable} {r : TokenRange} {tree : SyntaxTree} {parentFloor : Nat}
    (hvisit : m.visit parentFloor tree s = .ok (claim, s')) (hputs : t.PutsAt s' claim.waiting r)
    (hnone : claim.span? = none) : ∀ id ∈ tree.preorder, (id, r) ∈ t.entries := by
  intro id hid
  have hplaces := (visit_places tree hvisit).1
  cases claim with
  | tokens span => cases hnone
  | nothing waiting => exact hputs.given id (hplaces id hid)

/-- A child without tokens of a node with tokens stands before the first of the children after it that has
tokens, or else after the node. -/
theorem given_of_child {t : RangeTable} (hnodup : t.ids.Nodup) {r s : TokenRange} {before s' : Pass}
    {parentFloor : Nat} {id : NodeId} {kind : String} {literal? : Option Literal}
    {earlier later : List SyntaxTree} {child : SyntaxTree} {span : Span}
    (hvisit : m.visit parentFloor (.node id kind literal? (earlier ++ child :: later)) before =
      .ok (.tokens span, s'))
    (hputs : t.PutsAt s' [] r) (hs : t.get? child.id = some s) (hempty : s.isEmpty = true) :
    s = t.placeBefore (later.map SyntaxTree.id) (.emptyAfter span.last) := by
  rw [visit_node] at hvisit
  obtain ⟨⟨f₁, s₁⟩, hall, hleave⟩ := bind_eq_ok hvisit
  have hall' := hall
  rw [visitAll_append] at hall'
  obtain ⟨⟨f₂, s₂⟩, hearlier, -⟩ := bind_eq_ok hall'
  have hleft : t.PutsAt s₁ f₁.waiting (.emptyAfter span.last) := RangeTable.PutsAt.of_leave hleave hputs
  obtain ⟨claim, s₃, hchild, hputs'⟩ := hleft.of_child hnodup hearlier hall
  have hnone := ((given_of_visit hnodup hchild hputs'.settles).isEmpty_iff hs).1 hempty
  have hmem := given_of_span?_eq_none hchild hputs' hnone child.id child.id_mem_preorder
  rw [hnone] at hmem
  exact Option.some.inj (hs.symm.trans (RangeTable.get?_eq_some_of_mem hnodup hmem))

/-- The table of a marked tree puts what waits at the end before the first token. -/
theorem exists_putsAt_of_markTree {tree : SyntaxTree} {s : Pass} (h : m.markTree tree = .ok s) :
    ∃ claim s₁, m.visit 0 tree Pass.initial = .ok (claim, s₁) ∧
      s.ranges.PutsAt s₁ claim.waiting (.emptyBefore 0) := by
  obtain ⟨-, claim, s₁, hvisit, hs⟩ := markTree_cases h
  refine ⟨claim, s₁, hvisit, ?_⟩
  rcases hs with ⟨⟨span, rfl⟩, rfl⟩ | ⟨waiting, rfl, rfl⟩
  · exact ⟨List.Subset.refl _, rfl, nofun⟩
  · have hcursor : s₁.cursor = 0 := cursor_of_visit tree hvisit
    rw [hcursor, Nat.zero_min]
    exact ⟨fun _ he => Pass.mem_entries_give.2 (Or.inr he), rfl, fun _ hid => Pass.mem_give hid _⟩

end Marker

/-! ### Marked graphs -/

section marked

variable {source : Source} {policy : PolicyTable} {g : NodeTable} {root : NodeId} {ranges : RangeTable}

/-- Each visit that is made in marking a graph ends well, and those that wait at its end have one place in the
table. -/
theorem exists_putsAt_of_mark (hmark : mark source policy g root = .ok ranges) {v : Visit}
    (hv : (Marker.new source policy).Makes (g.visit root) v) :
    ∃ claim s r, (Marker.new source policy).visit v.parentFloor v.tree v.before = .ok (claim, s) ∧
      ranges.PutsAt s claim.waiting r := by
  have hnodup := nodup_ids_of_mark hmark
  obtain ⟨s, hs, rfl⟩ := exists_of_mark_eq_ok hmark
  obtain ⟨claim, s₁, hvisit, hputs⟩ := Marker.exists_putsAt_of_markTree hs
  exact hv.exists_putsAt hnodup hvisit hputs

/-- A node has an empty range if and only if it takes no tokens for itself and no child has tokens. -/
theorem isEmpty_iff_of_mark (hmark : mark source policy g root = .ok ranges) {v : Visit} {r : TokenRange}
    (hv : (Marker.new source policy).Makes (g.visit root) v) (hr : ranges.get? v.tree.id = some r) :
    r.isEmpty = true ↔ (∀ span, ¬ (Marker.new source policy).Takes v span) ∧
      ∀ c ∈ g.reachedFrom root v.tree.id, ∀ s, ranges.get? c = some s → s.isEmpty = true := by
  have hnodup := nodup_ids_of_mark hmark
  obtain ⟨claim, s, r', hvisit, hputs⟩ := exists_putsAt_of_mark hmark hv
  have hgiven := Marker.given_of_visit hnodup hvisit hputs.settles
  rw [hgiven.isEmpty_iff hr, Marker.span?_eq_none_iff_of_visit hnodup hvisit hputs.settles,
    RangeTable.spansOf_eq_nil_iff, ← NodeTable.map_id_children hv.mem_subtrees, List.forall_mem_map]

/-- All nodes under a node without tokens have its range. -/
theorem get?_eq_some_of_isEmpty (hmark : mark source policy g root = .ok ranges) {v : Visit}
    {r : TokenRange} (hv : (Marker.new source policy).Makes (g.visit root) v)
    (hr : ranges.get? v.tree.id = some r) (hempty : r.isEmpty = true) :
    ∀ id ∈ v.tree.preorder, ranges.get? id = some r := by
  have hnodup := nodup_ids_of_mark hmark
  obtain ⟨claim, s, r', hvisit, hputs⟩ := exists_putsAt_of_mark hmark hv
  have hnone := ((Marker.given_of_visit hnodup hvisit hputs.settles).isEmpty_iff hr).1 hempty
  have hall : ∀ id ∈ v.tree.preorder, ranges.get? id = some r' := fun id hid =>
    RangeTable.get?_eq_some_of_mem hnodup (Marker.given_of_span?_eq_none hvisit hputs hnone id hid)
  obtain rfl := Option.some.inj (hr.symm.trans (hall _ v.tree.id_mem_preorder))
  exact hall

/-- A node without tokens has the range of its parent, if this has no tokens either. Otherwise it stands
before the next sibling with tokens, or else after the parent. -/
theorem eq_of_reachedFrom (hmark : mark source policy g root = .ok ranges) {p c : NodeId}
    {r s : TokenRange} {before after : List NodeId} (hr : ranges.get? p = some r)
    (hreached : g.reachedFrom root p = before ++ c :: after) (hs : ranges.get? c = some s)
    (hempty : s.isEmpty = true) :
    (r.isEmpty = false → s = ranges.placeBefore after (.emptyAfter r.last)) ∧
      (r.isEmpty = true → s = r) := by
  have hnodup := nodup_ids_of_mark hmark
  have hparent : g.parent? root c = some p := by
    have hc : c ∈ g.reachedFrom root p := by simp [hreached]
    exact (NodeTable.mem_reachedFrom.1 hc).2
  obtain ⟨u, hu, rfl⟩ := NodeTable.exists_mem_subtrees (NodeTable.of_parent?_eq_some hparent).1
  obtain ⟨v, hv, rfl⟩ := exists_makes_of_mark hmark hu
  rw [← NodeTable.map_id_children hu] at hreached
  obtain ⟨earlier, later, hchildren, rfl, hlater⟩ := List.map_eq_append_iff.1 hreached
  obtain ⟨child, later, rfl, rfl, rfl⟩ := List.map_eq_cons_iff.1 hlater
  constructor
  · intro hne
    obtain ⟨claim, s', r', hvisit, hputs⟩ := exists_putsAt_of_mark hmark hv
    have hgiven := Marker.given_of_visit hnodup hvisit hputs.settles
    obtain ⟨parentFloor, ⟨id, kind, literal?, children⟩, before⟩ := v
    obtain rfl : children = earlier ++ child :: later := hchildren
    cases claim with
    | tokens span =>
      obtain rfl := Option.some.inj (hr.symm.trans hgiven)
      exact Marker.given_of_child hnodup hvisit hputs hs hempty
    | nothing waiting =>
      rw [(hgiven.isEmpty_iff hr).2 rfl] at hne
      cases hne
  · intro hrempty
    have hchild : child ∈ v.tree.children := by simp [hchildren]
    have hmem : child.id ∈ v.tree.preorder := by
      rw [← SyntaxTree.map_id_subtrees]
      exact List.mem_map_of_mem (SyntaxTree.mem_subtrees_of_mem_children hchild)
    exact Option.some.inj (hs.symm.trans (get?_eq_some_of_isEmpty hmark hv hr hrempty _ hmem))

/-- If the root has no tokens then all nodes stand before the first token. -/
theorem get?_eq_some_of_isEmpty_root (hmark : mark source policy g root = .ok ranges) {r : TokenRange}
    (hr : ranges.get? root = some r) (hempty : r.isEmpty = true) :
    ∀ id ∈ g.walk root, ranges.get? id = some (.emptyBefore 0) := by
  intro id hid
  have hnodup := nodup_ids_of_mark hmark
  obtain ⟨s, hs, rfl⟩ := exists_of_mark_eq_ok hmark
  obtain ⟨claim, s₁, hvisit, hputs⟩ := Marker.exists_putsAt_of_markTree hs
  have hnone := ((Marker.given_of_visit hnodup hvisit hputs.settles).isEmpty_iff hr).1 hempty
  rw [← NodeTable.preorder_unfolding] at hid
  exact RangeTable.get?_eq_some_of_mem hnodup (Marker.given_of_span?_eq_none hvisit hputs hnone id hid)

/-- **Nodes without tokens are anchored at their neighbours.** Every node of a marked graph is visited and has
a range. The range is empty if and only if the node takes no token for itself and none of the nodes that are
first reached from it has tokens. An empty node stands right before the next sibling that has tokens, or, if
there is none, right after its parent; if the parent is empty too it has the range of the parent. If the root
is empty then all nodes stand before the first token. -/
theorem empty_nodes_anchored (hmark : mark source policy g root = .ok ranges) :
    (∀ id ∈ g.walk root, ∃ v r, (Marker.new source policy).Makes (g.visit root) v ∧ v.tree.id = id ∧
      ranges.get? id = some r) ∧
    (∀ v r, (Marker.new source policy).Makes (g.visit root) v → ranges.get? v.tree.id = some r →
      (r.isEmpty = true ↔ (∀ span, ¬ (Marker.new source policy).Takes v span) ∧
        ∀ c ∈ g.reachedFrom root v.tree.id, ∀ s, ranges.get? c = some s → s.isEmpty = true)) ∧
    (∀ p r before c s after, ranges.get? p = some r → g.reachedFrom root p = before ++ c :: after →
      ranges.get? c = some s → s.isEmpty = true →
        (r.isEmpty = false → s = ranges.placeBefore after (.emptyAfter r.last)) ∧
        (r.isEmpty = true → s = r)) ∧
    ∀ r, ranges.get? root = some r → r.isEmpty = true →
      ∀ id ∈ g.walk root, ranges.get? id = some (.emptyBefore 0) := by
  refine ⟨fun id hid => ?_, fun v r hv hr => isEmpty_iff_of_mark hmark hv hr,
    fun p r before c s after hr hreached hs hempty => eq_of_reachedFrom hmark hr hreached hs hempty,
    fun r hr hempty => get?_eq_some_of_isEmpty_root hmark hr hempty⟩
  obtain ⟨u, hu, rfl⟩ := NodeTable.exists_mem_subtrees hid
  obtain ⟨v, hv, rfl⟩ := exists_makes_of_mark hmark hu
  obtain ⟨r, hr⟩ := exists_get?_of_mark hmark hid
  exact ⟨v, r, hv, rfl, hr⟩

end marked

/-- A call with a group of empty nodes between the name and the argument, and an empty node after the
argument. -/
def groupGraph : NodeTable where
  nodes := [
    (1, ⟨"Call", some [2, 3, 5, 6], [], none, none⟩),
    (2, ⟨"Name", some [], [], none, some (.text ['f'])⟩),
    (3, ⟨"Group", some [4], [], none, none⟩),
    (4, ⟨"Load", some [], [], none, none⟩),
    (5, ⟨"Name", some [], [], none, some (.text ['x'])⟩),
    (6, ⟨"Load", some [], [], none, none⟩)]

/-- The ranges of the nodes of `groupGraph`. -/
def groupRanges : RangeTable where
  entries := [(6, .emptyAfter 3), (1, .ofTokens 0 3), (3, .emptyBefore 2), (4, .emptyBefore 2),
    (5, .ofTokens 2 2), (2, .ofTokens 0 0)]

/-- The group without the call around it. -/
def emptyRanges : RangeTable where
  entries := [(3, .emptyBefore 0), (4, .emptyBefore 0)]

theorem empty_nodes_anchored_group :
    mark callSource .empty groupGraph 1 = .ok groupRanges ∧
      groupGraph.reachedFrom 1 1 = [2, 3, 5, 6] ∧ groupGraph.reachedFrom 1 3 = [4] ∧
      (∃ v, (Marker.new callSource .empty).Makes (groupGraph.visit 1) v ∧ v.tree.id = 3 ∧
        ∀ span, ¬ (Marker.new callSource .empty).Takes v span) ∧
      .emptyBefore 2 = groupRanges.placeBefore [5, 6] (.emptyAfter 3) ∧
      .emptyAfter 3 = groupRanges.placeBefore [] (.emptyAfter 3) ∧
      groupRanges.get? 4 = groupRanges.get? 3 ∧
      mark callSource .empty groupGraph 3 = .ok emptyRanges ∧
      ∀ id ∈ groupGraph.walk 3, emptyRanges.get? id = some (.emptyBefore 0) := by
  have hmark : mark callSource .empty groupGraph 1 = .ok groupRanges := by decide +kernel
  have hmark' : mark callSource .empty groupGraph 3 = .ok emptyRanges := by decide +kernel
  have hreached : groupGraph.reachedFrom 1 1 = [2, 3, 5, 6] :=
    (NodeTable.map_id_children (SyntaxTree.mem_subtrees_self (groupGraph.unfolding 1))).symm
  have hgroup : SyntaxTree.node 3 "Group" none [.node 4 "Load" none []] ∈
      (groupGraph.unfolding 1).subtrees := .tail _ (.tail _ (.head _))
  have hreached' : groupGraph.reachedFrom 1 3 = [4] := (NodeTable.map_id_children hgroup).symm
  have hwalk : 3 ∈ groupGraph.walk 1 := by
    rw [← NodeTable.preorder_unfolding]
    decide
  obtain ⟨hvisited, hempty, hanchored, -⟩ := empty_nodes_anchored hmark
  obtain ⟨v, r, hv, hid, hr⟩ := hvisited 3 hwalk
  obtain rfl : r = .emptyBefore 2 := Option.some.inj (hr.symm.trans rfl)
  have htakes := ((hempty v _ hv (hid ▸ hr)).1 rfl).1
  have hnext := (hanchored 1 (.ofTokens 0 3) [2] 3 _ [5, 6] rfl hreached hr rfl).1 rfl
  have hlast := (hanchored 1 (.ofTokens 0 3) [2, 3, 5] 6 (.emptyAfter 3) [] rfl hreached rfl rfl).1 rfl
  have hinner := (hanchored 3 _ [] 4 (.emptyBefore 2) [] hr hreached' rfl rfl).2 rfl
  have hroot := (empty_nodes_anchored hmark').2.2.2 (.emptyBefore 0) rfl rfl
  exact ⟨hmark, hreached, hreached', ⟨v, hv, hid, htakes⟩, hnext, hlast, by rw [hr, ← hinner]; rfl,
    hmark', hroot⟩

end SourceSpans
