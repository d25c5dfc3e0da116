import SourceSpans.Proofs.Mark.Closure
import SourceSpans.Proofs.Mark.Nesting

/-!
# The least spans of nodes

A node whose kind has no rule gets the least closed span around the spans of its children, or else around
its literal (`spans_least`). It takes tokens from where the cursor stood when the node was entered.

* **Visits** (`Marker.Makes`): a visit of a tree makes a visit of each tree in it, from a state of its own
  (`exists_makes`), and where the one visit ends well the other one does (`Makes.exists_visit`).
* **Settled tables** (`RangeTable.Settles`): what a visit has given stays in the table, and the nodes that
  it has handed on get empty ranges in the end. So the table tells what the visit has claimed
  (`given_of_visit`), and the spans that a frame has adopted are those of the children in the table
  (`spans_of_visitAll`).
* **Nothing claimed** (`cursor_of_visit`): a visit that claims nothing leaves the cursor where it was. So
  the literal of a node is looked for from where the node was entered.
-/

namespace SourceSpans

open SyntaxTree (subtrees subtreesAll)

/-- The tokens of a range, if it has any. -/
def TokenRange.span? (r : TokenRange) : Option Span :=
  if r.isEmpty then none else some ⟨r.first, r.last⟩

/-- A visit of a tree: where its parent began, and the state in which it starts. -/
structure Visit where
  parentFloor : Nat
  tree : SyntaxTree
  before : Pass

namespace RangeTable

/-- The spans of the trees that have tokens. -/
def spansOf (t : RangeTable) (trees : List SyntaxTree) : List Span :=
  trees.filterMap fun c => (t.get? c.id).bind TokenRange.span?

/-- What marking ends with from a state in which nodes wait: a table that keeps the ranges given so far, and
in which the nodes that wait have empty ranges. -/
structure Settles (t : RangeTable) (s : Pass) (waiting : List NodeId) : Prop where
  subset : s.ranges.entries ⊆ t.entries
  empty : ∀ id ∈ waiting, ∃ r, (id, r) ∈ t.entries ∧ r.isEmpty = true

namespace Settles

variable {t : RangeTable} {s s' : Pass} {waiting waiting' ids : List NodeId} {m : Marker}

theorem mono (h : t.Settles s' waiting') (hsub : s.ranges.entries ⊆ s'.ranges.entries)
    (hwaiting : waiting ⊆ waiting') : t.Settles s waiting :=
  ⟨List.Subset.trans hsub h.subset, fun id hid => h.empty id (hwaiting hid)⟩

/-- Nodes that are given an empty range waited for it. -/
theorem of_give {r : TokenRange} (h : t.Settles (s.give ids r) waiting) (hr : r.isEmpty = true) :
    t.Settles s (ids ++ waiting) := by
  refine ⟨fun e he => h.subset (Pass.mem_entries_give.2 (Or.inr he)), fun id hid => ?_⟩
  rcases List.mem_append.1 hid with hid | hid
  · exact ⟨r, h.subset (Pass.mem_give hid r), hr⟩
  · exact h.empty id hid

theorem of_adopt {f : Frame} {claim : Claim}
    (h : t.Settles (f.adopt claim s).2 (f.adopt claim s).1.waiting) :
    t.Settles s (f.waiting ++ claim.waiting) := by
  cases claim with
  | tokens span => exact h.of_give rfl
  | nothing waiting => exact h

theorem of_visit {parentFloor : Nat} {tree : SyntaxTree} {claim : Claim}
    (hvisit : m.visit parentFloor tree s = .ok (claim, s')) (h : t.Settles s' waiting) :
    t.Settles s waiting :=
  h.mono (Marker.visit_places tree hvisit).2.subset (List.Subset.refl _)

theorem of_visitAll {rule? : Option Rule} {trees : List SyntaxTree} {f f' : Frame}
    (hall : m.visitAll rule? trees f s = .ok (f', s')) (h : t.Settles s' f'.waiting) :
    t.Settles s f.waiting := by
  induction trees generalizing f s with
  | nil =>
    obtain ⟨rfl, rfl⟩ := Prod.mk.inj (Except.ok.inj hall)
    exact h
  | cons child rest ih =>
    rcases hintro : m.introduce rule? f s with ⟨f₀, s₀⟩
    obtain ⟨-, -, hwaiting, hranges, -, -⟩ := Marker.introduce_eq hintro
    rw [Marker.visitAll_cons, hintro] at hall
    obtain ⟨⟨claim, s₁⟩, hchild, hrest⟩ := bind_eq_ok hall
    have hadopted := (ih hrest).of_adopt
    refine (hadopted.of_visit hchild).mono ?_ ?_
    · rw [hranges]
      exact List.Subset.refl _
    · rw [hwaiting]
      exact List.subset_append_left _ _

theorem of_leave {id : NodeId} {kind : String} {literal? : Option Literal} {rule? : Option Rule}
    {parentFloor : Nat} {f : Frame} {claim : Claim}
    (hleave : m.leave id kind literal? rule? parentFloor f s = .ok (claim, s'))
    (h : t.Settles s' claim.waiting) : t.Settles s f.waiting := by
  rcases Marker.leave_cases hleave with ⟨-, rfl, rfl⟩ | ⟨_, span, -, -, rfl, -, -, hgiven⟩
  · exact h.mono (List.Subset.refl _) (List.subset_append_left _ _)
  · have hgive : t.Settles ((s.give [id] (TokenRange.ofTokens span.first span.last)).give f.waiting
        (TokenRange.emptyAfter span.last)) [] :=
      ⟨hgiven ▸ h.subset, nofun⟩
    have hown : s.ranges.entries ⊆
        (s.give [id] (TokenRange.ofTokens span.first span.last)).ranges.entries := fun e he =>
      Pass.mem_entries_give.2 (Or.inr he)
    exact (hgive.of_give rfl).mono hown (List.subset_append_left _ _)

end Settles

end RangeTable

/-- The table gives a node the tokens that are claimed for it; if none are it gives it an empty range. -/
def Claim.IsGiven (t : RangeTable) (id : NodeId) : Claim → Prop
  | .tokens span => t.get? id = some (.ofTokens span.first span.last)
  | .nothing _ => ∃ r, t.get? id = some r ∧ r.isEmpty = true

/-- The span that is claimed. -/
def Claim.span? : Claim → Option Span
  | .tokens span => some span
  | .nothing _ => none

theorem RangeTable.spansOf_cons {t : RangeTable} {c : SyntaxTree} {rest : List SyntaxTree}
    {claim : Claim} (h : claim.IsGiven t c.id) :
    t.spansOf (c :: rest) = claim.span?.toList ++ t.spansOf rest := by
  have hspan : (t.get? c.id).bind TokenRange.span? = claim.span? := by
    cases claim with
    | tokens span =>
      rw [show t.get? c.id = _ from h]
      rfl
    | nothing waiting =>
      obtain ⟨r, hr, hempty⟩ := h
      rw [hr, Option.bind_some, TokenRange.span?, if_pos hempty]
      rfl
  rw [spansOf, List.filterMap_cons, hspan]
  rcases claim.span? with _ | span <;> rfl

namespace Marker

variable {m : Marker}

/-! ### The visits that a visit makes -/

variable (m) in
/-- A visit of a tree makes a visit of each tree in it. A child is visited when the children before it have
been visited and the `intro` has been tried. -/
inductive Makes : Visit → Visit → Prop
  | self (v : Visit) : Makes v v
  | child {parentFloor : Nat} {id : NodeId} {kind : String} {literal? : Option Literal}
      {earlier later : List SyntaxTree} {child : SyntaxTree} {before s : Pass} {f : Frame} {w : Visit}
      (hearlier : m.visitAll (m.policy.rule? kind) earlier
        (m.enter id (m.policy.rule? kind) parentFloor before).1
        (m.enter id (m.policy.rule? kind) parentFloor before).2 = .ok (f, s))
      (h : Makes ⟨(m.introduce (m.policy.rule? kind) f s).1.floor, child,
        (m.introduce (m.policy.rule? kind) f s).2⟩ w) :
      Makes ⟨parentFloor, .node id kind literal? (earlier ++ child :: later), before⟩ w

theorem Makes.mem_subtrees {v w : Visit} (h : m.Makes v w) : w.tree ∈ v.tree.subtrees := by
  induction h with
  | self v => exact SyntaxTree.mem_subtrees_self v.tree
  | @child parentFloor id kind literal? earlier later child before s f w hearlier h ih =>
    have hchild : child ∈ subtrees (.node id kind literal? (earlier ++ child :: later)) :=
      SyntaxTree.mem_subtrees_of_mem_children
        (List.mem_append_right earlier List.mem_cons_self)
    exact (SyntaxTree.subtrees_isInfix _ child hchild).subset ih

mutual

/-- Every tree in a tree that is visited is visited. -/
theorem exists_makes : (t : SyntaxTree) → ∀ {parentFloor : Nat} {s s' : Pass} {claim : Claim},
    m.visit parentFloor t s = .ok (claim, s') →
      ∀ u ∈ t.subtrees, ∃ w, m.Makes ⟨parentFloor, t, s⟩ w ∧ w.tree = u
  | .node id kind literal? children, parentFloor, s, s', claim, h, u, hu => by
      rcases List.mem_cons.1 hu with rfl | hu
      · exact ⟨_, .self _, rfl⟩
      rw [visit_node] at h
      obtain ⟨⟨f₁, s₁⟩, hall, -⟩ := bind_eq_ok h
      obtain ⟨earlier, child, later, f, s, w, rfl, hearlier, hw, rfl⟩ :=
        exists_makes_all children hall u hu
      exact ⟨w, .child hearlier hw, rfl⟩

/-- The same for the children that are left: the tree is in one of them. -/
theorem exists_makes_all : (ts : List SyntaxTree) → ∀ {rule? : Option Rule} {f f' : Frame}
    {s s' : Pass}, m.visitAll rule? ts f s = .ok (f', s') → ∀ u ∈ subtreesAll ts,
      ∃ earlier child later f₁ s₁ w, ts = earlier ++ child :: later ∧
        m.visitAll rule? earlier f s = .ok (f₁, s₁) ∧
        m.Makes ⟨(m.introduce rule? f₁ s₁).1.floor, child, (m.introduce rule? f₁ s₁).2⟩ w ∧
        w.tree = u
  | [], rule?, f, f', s, s', h, u, hu => absurd hu List.not_mem_nil
  | child :: rest, rule?, f, f', s, s', h, u, hu => by
      rw [visitAll_cons] at h
      obtain ⟨⟨claim, s₁⟩, hchild, hrest⟩ := bind_eq_ok h
      rcases List.mem_append.1 hu with hu | hu
      · obtain ⟨w, hw, rfl⟩ := exists_makes child hchild u hu
        exact ⟨[], child, rest, f, s, w, rfl, visitAll_nil rule? f s, hw, rfl⟩
      · obtain ⟨earlier, c, later, f₂, s₂, w, rfl, hearlier, hw, rfl⟩ :=
          exists_makes_all rest hrest u hu
        refine ⟨child :: earlier, c, later, f₂, s₂, w, rfl, ?_, hw, rfl⟩
        rw [visitAll_cons, hchild]
        exact hearlier

end

/-- Where a visit ends well each visit that it makes does, and what is settled for it in the end is settled
for them. -/
theorem Makes.exists_visit {v w : Visit} (h : m.Makes v w) {t : RangeTable} {claim : Claim} {s : Pass}
    (hvisit : m.visit v.parentFloor v.tree v.before = .ok (claim, s))
    (hsettles : t.Settles s claim.waiting) :
    ∃ claim' s', m.visit w.parentFloor w.tree w.before = .ok (claim', s') ∧
      t.Settles s' claim'.waiting := by
  induction h generalizing claim s with
  | self v => exact ⟨claim, s, hvisit, hsettles⟩
  | child hearlier h ih =>
    rw [visit_node] at hvisit
    obtain ⟨⟨f₁, s₁⟩, hall, hleave⟩ := bind_eq_ok hvisit
    rw [visitAll_append, hearlier] at hall
    replace hall := (visitAll_cons _ _ _ _ _).symm.trans hall
    obtain ⟨⟨claim', s'⟩, hchild, hrest⟩ := bind_eq_ok hall
    have hadopted := ((hsettles.of_leave hleave).of_visitAll hrest).of_adopt
    exact ih hchild (hadopted.mono (List.Subset.refl _) (List.subset_append_right _ _))

/-! ### What the table tells -/

/-- A settled table tells what a visit has claimed. -/
theorem given_of_visit {t : RangeTable} (hnodup : t.ids.Nodup) {tree : SyntaxTree} {parentFloor : Nat}
    {s s' : Pass} {claim : Claim} (hvisit : m.visit parentFloor tree s = .ok (claim, s'))
    (hsettles : t.Settles s' claim.waiting) : claim.IsGiven t tree.id := by
  have hplaces := (visit_places tree hvisit).1
  cases claim with
  | tokens span =>
    exact RangeTable.get?_eq_some_of_mem hnodup (hsettles.subset hplaces.2.2.id_mem)
  | nothing waiting =>
    obtain ⟨r, hr, hempty⟩ := hsettles.empty tree.id (hplaces tree.id tree.id_mem_preorder)
    exact ⟨r, RangeTable.get?_eq_some_of_mem hnodup hr, hempty⟩

/-- The spans that have been adopted are those of the children in a settled table. -/
theorem spans_of_visitAll {t : RangeTable} (hnodup : t.ids.Nodup) {ts : List SyntaxTree}
    {rule? : Option Rule} {f f' : Frame} {s s' : Pass}
    (hall : m.visitAll rule? ts f s = .ok (f', s')) (hsettles : t.Settles s' f'.waiting) :
    f'.spans = f.spans ++ t.spansOf ts := by
  induction ts generalizing f s with
  | nil =>
    obtain ⟨rfl, rfl⟩ := Prod.mk.inj (Except.ok.inj hall)
    exact (List.append_nil _).symm
  | cons child rest ih =>
    rcases hintro : m.introduce rule? f s with ⟨f₀, s₀⟩
    obtain ⟨-, hspans, -⟩ := introduce_eq hintro
    rw [visitAll_cons, hintro] at hall
    obtain ⟨⟨claim, s₁⟩, hchild, hrest⟩ := bind_eq_ok hall
    have hadopted := (hsettles.of_visitAll hrest).of_adopt
    have hgiven := given_of_visit hnodup hchild
      (hadopted.mono (List.Subset.refl _) (List.subset_append_right _ _))
    rw [ih hrest, RangeTable.spansOf_cons hgiven, ← hspans]
    cases claim with
    | tokens span => exact List.append_assoc _ _ _
    | nothing waiting => rfl

/-! ### Nothing claimed -/

mutual

/-- A visit that claims nothing leaves the cursor where it was. -/
theorem cursor_of_visit : (t : SyntaxTree) → ∀ {parentFloor : Nat} {s s' : Pass}
    {waiting : List NodeId}, m.visit parentFloor t s = .ok (.nothing waiting, s') →
      s'.cursor = s.cursor
  | .node id kind literal? children, parentFloor, s, s', waiting, h => by
      rcases henter : m.enter id (m.policy.rule? kind) parentFloor s with ⟨f₀, s₀⟩
      obtain ⟨-, -, -, -, -, hhead₀⟩ := enter_eq henter
      rw [visit_node, henter] at h
      obtain ⟨⟨f₁, s₁⟩, hall, hleave⟩ := bind_eq_ok h
      rcases leave_cases hleave with ⟨hnone, -, rfl⟩ | ⟨_, _, -, -, hclaim, -⟩
      · obtain ⟨hhead, hspans⟩ := Frame.of_hull?_eq_none hnone
        obtain ⟨hhead, -, hcursor⟩ := cursor_of_visitAll children hall hhead hspans
        rcases hhead₀ with ⟨-, hcursor₀⟩ | ⟨head, hsome, -⟩
        · exact hcursor.trans hcursor₀
        · cases hhead.symm.trans hsome
      · cases hclaim

/-- The same for the children that are left, of a node that has neither a head nor a child with tokens. -/
theorem cursor_of_visitAll : (ts : List SyntaxTree) → ∀ {rule? : Option Rule} {f f' : Frame}
    {s s' : Pass}, m.visitAll rule? ts f s = .ok (f', s') → f'.head? = none → f'.spans = [] →
      f.head? = none ∧ f.spans = [] ∧ s'.cursor = s.cursor
  | [], rule?, f, f', s, s', h, hhead, hspans => by
      obtain ⟨rfl, rfl⟩ := Prod.mk.inj (Except.ok.inj h)
      exact ⟨hhead, hspans, rfl⟩
  | child :: rest, rule?, f, f', s, s', h, hhead, hspans => by
      rcases hintro : m.introduce rule? f s with ⟨f₀, s₀⟩
      obtain ⟨-, hspans₀, -, -, -, hhead₀⟩ := introduce_eq hintro
      rw [visitAll_cons, hintro] at h
      obtain ⟨⟨claim, s₁⟩, hchild, hrest⟩ := bind_eq_ok h
      obtain ⟨hhead₁, hspans₁, hcursor⟩ := cursor_of_visitAll rest hrest hhead hspans
      cases claim with
      | tokens span => exact absurd hspans₁ (List.append_ne_nil_of_right_ne_nil _ nofun)
      | nothing waiting =>
        have hcursor₁ := cursor_of_visit child hchild
        rcases hhead₀ with ⟨heq, hcursor₀⟩ | ⟨span, -, -, hsome | ⟨head, -, hsome⟩⟩
        · exact ⟨heq.symm.trans hhead₁, hspans₀.symm.trans hspans₁,
            hcursor.trans (hcursor₁.trans hcursor₀)⟩
        · cases hhead₁.symm.trans hsome
        · cases hhead₁.symm.trans hsome

end

/-! ### Nodes without a rule -/

theorem introduce_none (f : Frame) (s : Pass) : m.introduce none f s = (f, s) := by
  unfold introduce
  split_ifs <;> rfl

/-- Without a rule there is no head. -/
theorem head?_of_visitAll_none {ts : List SyntaxTree} {f f' : Frame} {s s' : Pass}
    (hall : m.visitAll none ts f s = .ok (f', s')) : f'.head? = f.head? := by
  induction ts generalizing f s with
  | nil =>
    obtain ⟨rfl, rfl⟩ := Prod.mk.inj (Except.ok.inj hall)
    rfl
  | cons child rest ih =>
    rw [visitAll_cons, introduce_none] at hall
    obtain ⟨⟨claim, s₁⟩, -, hrest⟩ := bind_eq_ok hall
    rw [ih hrest, Frame.head?_adopt]

/-- A node without a rule gets a balanced span around its hull, or around its literal if it has no hull;
it waits if it has neither. -/
theorem leave_none_cases {id : NodeId} {kind : String} {literal? : Option Literal}
    {parentFloor : Nat} {f : Frame} {s s' : Pass} {claim : Claim}
    (h : m.leave id kind literal? none parentFloor f s = .ok (claim, s')) :
    (∃ hull, f.hull? = some hull ∧
        claim = .tokens (m.balance f.floor f.spans none hull)) ∨
      (∃ literal found, f.hull? = none ∧ literal? = some literal ∧
        m.findLiteral? literal s.cursor = some found ∧
        claim = .tokens (m.balance f.floor f.spans none found)) ∨
      f.hull? = none ∧ literal? = none ∧ claim = .nothing (f.waiting ++ [id]) := by
  unfold leave at h
  rcases hhull : f.hull? with _ | hull <;> rw [hhull] at h
  · rcases literal? with _ | literal
    · obtain ⟨rfl, -⟩ := Prod.mk.inj (Except.ok.inj h)
      exact Or.inr (Or.inr ⟨rfl, rfl, rfl⟩)
    · rw [Option.elim_none, leaf?] at h
      dsimp only at h
      rcases hfound : m.findLiteral? literal s.cursor with _ | found <;> rw [hfound] at h
      · cases h
      · obtain ⟨rfl, -⟩ := Prod.mk.inj (Except.ok.inj h)
        exact Or.inr (Or.inl ⟨literal, found, rfl, rfl, hfound, rfl⟩)
  · obtain ⟨rfl, -⟩ := Prod.mk.inj (Except.ok.inj h)
    exact Or.inl ⟨hull, rfl, rfl⟩

variable (m) in
/-- The range of a node without a rule that was entered with the cursor at `floor`: that of the least
closed span around the spans of its children, or else around its literal, or else an empty range. -/
inductive LeastRange (floor : Nat) (spans : List Span) (literal? : Option Literal) : TokenRange → Prop
  | children {s : Span} (hspans : spans ≠ []) (h : m.LeastClosed floor spans spans s) :
      LeastRange floor spans literal? (.ofTokens s.first s.last)
  | literal {literal : Literal} {found s : Span} (hspans : spans = [])
      (hliteral : literal? = some literal) (hfound : m.findLiteral? literal floor = some found)
      (h : m.LeastClosed floor [] [found] s) :
      LeastRange floor spans literal? (.ofTokens s.first s.last)
  | nothing {r : TokenRange} (hspans : spans = []) (hliteral : literal? = none)
      (hempty : r.isEmpty = true) : LeastRange floor spans literal? r

/-- The least closed span around a hull is the least one around the spans that make up the hull. -/
theorem leastClosed_of_hull?_eq_some {f : Frame} {hull : Span} (horder : Span.InOrder f.spans)
    (hhead : f.head? = none) (hwithin : ∀ c ∈ f.spans, c.Within f.floor m.size)
    (hhull : f.hull? = some hull) :
    m.LeastClosed f.floor f.spans f.spans (m.balance f.floor f.spans none hull) := by
  obtain ⟨hcovers, hbounds⟩ := Frame.of_hull?_eq_some hhull
  rw [hhead, Option.toList_none, List.nil_append] at hcovers hbounds
  have hleast := leastClosed_balance (m := m) horder (hbounds _ _ hwithin).lo_le
  refine hleast.of_parts (fun c hc => ?_) fun outer houter _ => ?_
  · exact (hleast.covers hull (List.mem_singleton_self hull)).trans (hcovers c hc)
  · have hhull : hull.Within outer.first (outer.last + 1) := hbounds _ _ fun c hc =>
      ⟨(houter c hc).1, (hwithin c hc).first_le_last, Nat.lt_succ_of_le (houter c hc).2⟩
    rw [List.forall_mem_singleton]
    exact ⟨hhull.lo_le, Nat.le_of_lt_succ hhull.last_lt⟩

variable {t : RangeTable} {parentFloor : Nat} {id : NodeId} {kind : String} {literal? : Option Literal}
  {children : List SyntaxTree} {s s' : Pass} {claim : Claim}

/-- A node without a rule is left with a frame that begins where the node was entered and has no head, but
the spans of the children in a settled table. -/
theorem exists_frame_of_visit (hnodup : t.ids.Nodup) (hrule : m.policy.rule? kind = none)
    (hvisit : m.visit parentFloor (.node id kind literal? children) s = .ok (claim, s'))
    (hsettles : t.Settles s' claim.waiting) :
    ∃ f s₁, m.leave id kind literal? none parentFloor f s₁ = .ok (claim, s') ∧
      f.floor = s.cursor ∧ f.head? = none ∧ f.spans = t.spansOf children ∧
      (∀ c ∈ f.spans, c.Within f.floor m.size) ∧ (f.spans = [] → s₁.cursor = s.cursor) := by
  rcases henter : m.enter id none parentFloor s with ⟨f₀, s₀⟩
  obtain ⟨hf₀, hfloor₀, -⟩ := Frame.Holds.enter henter
  obtain ⟨-, hspans₀, -⟩ := enter_eq henter
  obtain ⟨hhead₀, hcursor₀⟩ : f₀.head? = none ∧ s₀.cursor = s.cursor := by
    obtain ⟨rfl, rfl⟩ := Prod.mk.inj henter
    exact ⟨rfl, rfl⟩
  rw [visit_node, hrule, henter] at hvisit
  obtain ⟨⟨f, s₁⟩, hall, hleave⟩ := bind_eq_ok hvisit
  obtain ⟨placed, waiting, -, hf, hfloor, -⟩ := visitAll_places children hall hf₀
  have hhead : f.head? = none := (head?_of_visitAll_none hall).trans hhead₀
  have hspans := spans_of_visitAll hnodup hall (hsettles.of_leave hleave)
  rw [hspans₀, List.nil_append] at hspans
  refine ⟨f, s₁, hleave, hfloor.trans hfloor₀, hhead, hspans, fun c hc => ?_, fun hnil => ?_⟩
  · exact hf.within c (List.mem_append_right _ hc)
  · obtain ⟨-, -, hcursor⟩ := cursor_of_visitAll children hall hhead hnil
    exact hcursor.trans hcursor₀

/-- A node without a rule has the least range in a settled table. -/
theorem leastRange_of_visit (hnodup : t.ids.Nodup) (hrule : m.policy.rule? kind = none)
    (hvisit : m.visit parentFloor (.node id kind literal? children) s = .ok (claim, s'))
    (hsettles : t.Settles s' claim.waiting) (horder : Span.InOrder (t.spansOf children)) :
    ∃ r, t.get? id = some r ∧ m.LeastRange s.cursor (t.spansOf children) literal? r := by
  have hgiven : claim.IsGiven t id := given_of_visit hnodup hvisit hsettles
  obtain ⟨f, s₁, hleave, hfloor, hhead, hspans, hwithin, hcursor⟩ :=
    exists_frame_of_visit hnodup hrule hvisit hsettles
  rw [← hspans] at horder ⊢
  rw [← hfloor] at hcursor ⊢
  rcases leave_none_cases hleave with ⟨hull, hhull, rfl⟩ | ⟨literal, found, hhull, rfl, hfound, rfl⟩ |
    ⟨hhull, rfl, rfl⟩
  · have hne : f.spans ≠ [] := by
      intro hnil
      rw [Frame.hull?, hhead, hnil] at hhull
      cases hhull
    exact ⟨_, hgiven, .children hne (leastClosed_of_hull?_eq_some horder hhead hwithin hhull)⟩
  · have hnil : f.spans = [] := (Frame.of_hull?_eq_none hhull).2
    rw [hcursor hnil] at hfound
    have hleast := leastClosed_balance (m := m) horder (within_of_findLiteral?_eq_some hfound).lo_le
    rw [hnil] at hleast hgiven ⊢
    exact ⟨_, hgiven, .literal rfl rfl hfound hleast⟩
  · obtain ⟨r, hr, hempty⟩ := hgiven
    exact ⟨r, hr, .nothing (Frame.of_hull?_eq_none hhull).2 rfl hempty⟩

/-- The table of a marked tree settles the visit of the root. -/
theorem exists_visit_of_markTree {tree : SyntaxTree} {s : Pass} (h : m.markTree tree = .ok s) :
    ∃ claim s₁, m.visit 0 tree Pass.initial = .ok (claim, s₁) ∧
      s.ranges.Settles s₁ claim.waiting := by
  obtain ⟨-, claim, s₁, hvisit, hs⟩ := markTree_cases h
  refine ⟨claim, s₁, hvisit, ?_⟩
  rcases hs with ⟨⟨span, rfl⟩, rfl⟩ | ⟨waiting, rfl, rfl⟩
  · exact ⟨List.Subset.refl _, nofun⟩
  · refine ⟨fun e he => Pass.mem_entries_give.2 (Or.inr he), fun id hid => ?_⟩
    exact ⟨_, Pass.mem_give hid _, rfl⟩

end Marker

/-! ### Marked graphs -/

/-- Placed trees with tokens have their spans in order. -/
theorem PlacedIn.inOrder_spansOf {t : RangeTable} (hnodup : t.ids.Nodup) {lo hi : Nat}
    {ts : List SyntaxTree} (h : PlacedIn t.entries lo hi ts) : Span.InOrder (t.spansOf ts) := by
  have hspan : ∀ {id : NodeId} {r : TokenRange} {x : Span}, (id, r) ∈ t.entries →
      (t.get? id).bind TokenRange.span? = some x → r.isEmpty = false ∧ x = ⟨r.first, r.last⟩ := by
    intro id r x hr hx
    rw [RangeTable.get?_eq_some_of_mem hnodup hr, Option.bind_some, TokenRange.span?] at hx
    split_ifs at hx with hempty
    exact ⟨eq_false_of_ne_true hempty, (Option.some.inj hx).symm⟩
  refine List.pairwise_filterMap.2 (h.pairwise.imp fun {c d} hcd x hx y hy => ?_)
  obtain ⟨r, s, hr, hs, hle⟩ := hcd
  obtain ⟨hre, rfl⟩ := hspan hr hx
  obtain ⟨hse, rfl⟩ := hspan hs hy
  rw [(TokenRange.edges_of_not_isEmpty hre).2, (TokenRange.edges_of_not_isEmpty hse).1] at hle
  show r.last < s.first
  omega

section marked

variable {source : Source} {policy : PolicyTable} {g : NodeTable} {root : NodeId}
  {ranges : RangeTable}

/-- The visit of the root of a graph. -/
def NodeTable.visit (g : NodeTable) (root : NodeId) : Visit := ⟨0, g.unfolding root, Pass.initial⟩

theorem exists_makes_of_mark (hmark : mark source policy g root = .ok ranges) {t : SyntaxTree}
    (ht : t ∈ (g.unfolding root).subtrees) :
    ∃ v, (Marker.new source policy).Makes (g.visit root) v ∧ v.tree = t := by
  obtain ⟨s, hs, -⟩ := exists_of_mark_eq_ok hmark
  obtain ⟨claim, s₁, hvisit, -⟩ := Marker.exists_visit_of_markTree hs
  exact Marker.exists_makes _ hvisit t ht

/-- A node without a rule has the least range in the table of a marked graph. -/
theorem leastRange_of_mark (hmark : mark source policy g root = .ok ranges) {v : Visit}
    (hv : (Marker.new source policy).Makes (g.visit root) v)
    (hrule : policy.rule? v.tree.kind = none) :
    ∃ r, ranges.get? v.tree.id = some r ∧
      (Marker.new source policy).LeastRange v.before.cursor (ranges.spansOf v.tree.children)
        v.tree.literal? r := by
  have hnodup := nodup_ids_of_mark hmark
  obtain ⟨r, hr⟩ := placed_of_mark hmark hv.mem_subtrees
  have horder := hr.children.inOrder_spansOf hnodup
  obtain ⟨s, hs, rfl⟩ := exists_of_mark_eq_ok hmark
  obtain ⟨claim, s₁, hvisit, hsettles⟩ := Marker.exists_visit_of_markTree hs
  obtain ⟨claim', s', hvisit', hsettles'⟩ := hv.exists_visit hvisit hsettles
  obtain ⟨parentFloor, ⟨id, kind, literal?, children⟩, before⟩ := v
  exact Marker.leastRange_of_visit hnodup hrule hvisit' hsettles' horder

/-- **Spans are the least closed ones.** Balancing a span with child spans in order finds the least closed
span around it, and takes no token before the floor. A second call, on a wider span, finds what a fresh call
on the wider span does, so that extending a span for a rule is balancing twice. In a marked graph every node
is visited, and a node whose kind has no rule has the tokens of the least closed span, from the cursor of
its visit on, around the spans of its children, or else around its literal. -/
theorem spans_least :
    (∀ (m : Marker) (floor : Nat) (children : List Span) (span : Span),
      span.Within floor m.size → Span.InOrder children →
        m.LeastClosed floor children [span] (m.balance floor children none span) ∧
        floor ≤ (m.balance floor children none span).first ∧
        (∀ wide : Span, floor ≤ wide.first → wide.Covers (m.balance floor children none span) →
          m.balance floor children (some (m.balance floor children none span)) wide =
            m.balance floor children none wide) ∧
        ∀ r, m.extend (some r) floor children span =
          m.balance floor children none (m.wrapped r.wrap floor
            (m.withTrail r floor (m.withLead r floor (m.balance floor children none span))))) ∧
    ∀ source policy g root ranges, mark source policy g root = .ok ranges →
      (∀ t ∈ (g.unfolding root).subtrees,
        ∃ v, (Marker.new source policy).Makes (g.visit root) v ∧ v.tree = t) ∧
      ∀ v, (Marker.new source policy).Makes (g.visit root) v → policy.rule? v.tree.kind = none →
        ∃ r, ranges.get? v.tree.id = some r ∧
          (Marker.new source policy).LeastRange v.before.cursor (ranges.spansOf v.tree.children)
            v.tree.literal? r := by
  refine ⟨fun m floor children span hspan horder => ?_, fun source policy g root ranges hmark => ?_⟩
  · exact ⟨Marker.leastClosed_balance horder hspan.lo_le,
      (Marker.extends_balance hspan).within.lo_le,
      fun wide hfloor hcovers => Marker.balance_some_eq horder hspan hfloor hcovers,
      fun r => Marker.extend_some_eq r horder hspan⟩
  · exact ⟨fun t ht => exists_makes_of_mark hmark ht,
      fun v hv hrule => leastRange_of_mark hmark hv hrule⟩

end marked

/-- The bracket of a call, with the argument as a child, and then the whole call. -/
theorem spans_least_call :
    (Marker.new callSource .empty).LeastClosed 0 [⟨2, 2⟩] [⟨1, 1⟩] ⟨1, 3⟩ ∧
      (Marker.new callSource .empty).balance 0 [⟨2, 2⟩] (some ⟨1, 3⟩) ⟨0, 3⟩ =
        (Marker.new callSource .empty).balance 0 [⟨2, 2⟩] none ⟨0, 3⟩ ∧
      mark callSource .empty callGraph 1 = .ok callRanges ∧
      (Marker.new callSource .empty).LeastRange 0 [⟨0, 0⟩, ⟨2, 2⟩] none (.ofTokens 0 3) := by
  have hbalance : (Marker.new callSource .empty).balance 0 [⟨2, 2⟩] none ⟨1, 1⟩ = ⟨1, 3⟩ := by
    decide +kernel
  have hmark : mark callSource .empty callGraph 1 = .ok callRanges := by decide +kernel
  have hspans : callRanges.spansOf (callGraph.unfolding 1).children = [⟨0, 0⟩, ⟨2, 2⟩] := by
    decide +kernel
  obtain ⟨hbalanced, hmarked⟩ := spans_least
  obtain ⟨hleast, -, hagain, -⟩ := hbalanced (Marker.new callSource .empty) 0 [⟨2, 2⟩] ⟨1, 1⟩
    ⟨by decide, by decide, by decide⟩ (List.pairwise_singleton _ _)
  rw [hbalance] at hleast hagain
  obtain ⟨r, hr, hrange⟩ := (hmarked _ _ _ _ _ hmark).2 (callGraph.visit 1) (.self _) (by decide)
  obtain rfl : TokenRange.ofTokens 0 3 = r := by
    rw [show (callGraph.visit 1).tree.id = 1 by decide] at hr
    exact Option.some.inj hr
  rw [NodeTable.visit, hspans] at hrange
  exact ⟨hleast, hagain ⟨0, 3⟩ (by decide) ⟨by decide, by decide⟩, hmark, hrange⟩

end SourceSpans
