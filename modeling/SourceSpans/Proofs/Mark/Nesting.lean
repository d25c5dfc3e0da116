import SourceSpans.Proofs.Mark.Coverage
import SourceSpans.Proofs.Mark.Edges

/-!
# The ranges of a marked tree are nested

In a marked tree every range holds the ranges of the children of its node, one after the other
(`Placed`). The order is that of the edges of tokens, which places empty ranges too.

* **Frames** (`Frame.Holds`): while a node is visited, the children it has adopted fall into those
  that are placed, wherever the spans adopted so far are bounded, and those that wait. The cursor
  lies behind all spans.
* **Visits** (`visit_places`): each step of a visit keeps this, so a visit that claims tokens has
  placed its tree there, and in a visit that claims nothing all nodes of the tree wait.
* **Marked graphs** (`marking_nests`): the ranges of the children of a node lie inside its range in
  the order of the walk, and so do their byte offsets in a source whose tokens are in order.
-/

namespace SourceSpans

open SyntaxTree (preorder preorderAll subtrees subtreesAll)

/-! ### Placed trees -/

mutual

/-- A node has a range, and this range holds those of its children one after the other. -/
def Placed (entries : List (NodeId × TokenRange)) : SyntaxTree → TokenRange → Prop
  | .node id _ _ children, r =>
      (id, r) ∈ entries ∧ PlacedIn entries r.lowEdge r.highEdge children

/-- Trees are placed one after the other between two edges. -/
def PlacedIn (entries : List (NodeId × TokenRange)) : (lo hi : Nat) → List SyntaxTree → Prop
  | lo, hi, [] => lo ≤ hi
  | lo, hi, t :: rest => ∃ r, lo ≤ r.lowEdge ∧ r.lowEdge ≤ r.highEdge ∧ Placed entries t r ∧
      PlacedIn entries r.highEdge hi rest

end

namespace Placed

variable {entries entries' : List (NodeId × TokenRange)}

theorem id_mem {t : SyntaxTree} {r : TokenRange} (h : Placed entries t r) : (t.id, r) ∈ entries := by
  cases t
  rw [Placed] at h
  exact h.1

theorem children {t : SyntaxTree} {r : TokenRange} (h : Placed entries t r) :
    PlacedIn entries r.lowEdge r.highEdge t.children := by
  cases t
  rw [Placed] at h
  exact h.2

mutual

/-- Giving more ranges moves no tree. -/
theorem mono (hsub : entries ⊆ entries') : (t : SyntaxTree) → ∀ {r : TokenRange},
    Placed entries t r → Placed entries' t r
  | .node id kind literal? children, r, h => by
      rw [Placed] at h ⊢
      exact ⟨hsub h.1, mono_all hsub children h.2⟩

theorem mono_all (hsub : entries ⊆ entries') : (ts : List SyntaxTree) → ∀ {lo hi : Nat},
    PlacedIn entries lo hi ts → PlacedIn entries' lo hi ts
  | [], lo, hi, h => h
  | t :: rest, lo, hi, h => by
      rw [PlacedIn] at h ⊢
      obtain ⟨r, hlo, hle, ht, hrest⟩ := h
      exact ⟨r, hlo, hle, mono hsub t ht, mono_all hsub rest hrest⟩

end

mutual

/-- A tree all of whose nodes have the same empty range is placed. -/
theorem of_forall_mem {r : TokenRange} (hempty : r.lowEdge = r.highEdge) : (t : SyntaxTree) →
    (∀ id ∈ t.preorder, (id, r) ∈ entries) → Placed entries t r
  | .node id kind literal? children, h => by
      rw [Placed]
      refine ⟨h id List.mem_cons_self, ?_⟩
      rw [← hempty]
      exact of_forall_mem_all hempty children fun x hx => h x (List.mem_cons_of_mem _ hx)

theorem of_forall_mem_all {r : TokenRange} (hempty : r.lowEdge = r.highEdge) :
    (ts : List SyntaxTree) → (∀ id ∈ preorderAll ts, (id, r) ∈ entries) →
    PlacedIn entries r.lowEdge r.lowEdge ts
  | [], h => le_rfl
  | t :: rest, h => by
      rw [PlacedIn]
      refine ⟨r, le_rfl, hempty.le, ?_, ?_⟩
      · exact of_forall_mem hempty t fun x hx => h x (List.mem_append_left _ hx)
      · rw [← hempty]
        exact of_forall_mem_all hempty rest fun x hx => h x (List.mem_append_right _ hx)

end

mutual

/-- In a placed tree all trees are placed. -/
theorem of_mem_subtrees : (t : SyntaxTree) → ∀ {r : TokenRange}, Placed entries t r →
    ∀ u ∈ t.subtrees, ∃ s, Placed entries u s
  | .node id kind literal? children, r, h, u, hu => by
      rcases List.mem_cons.1 hu with rfl | hu
      · exact ⟨r, h⟩
      · exact of_mem_subtreesAll children h.children u hu

theorem of_mem_subtreesAll : (ts : List SyntaxTree) → ∀ {lo hi : Nat}, PlacedIn entries lo hi ts →
    ∀ u ∈ subtreesAll ts, ∃ s, Placed entries u s
  | [], lo, hi, h, u, hu => absurd hu List.not_mem_nil
  | t :: rest, lo, hi, h, u, hu => by
      rw [PlacedIn] at h
      obtain ⟨r, -, -, ht, hrest⟩ := h
      rcases List.mem_append.1 hu with hu | hu
      · exact of_mem_subtrees t ht u hu
      · exact of_mem_subtreesAll rest hrest u hu

end

end Placed

namespace PlacedIn

variable {entries : List (NodeId × TokenRange)} {ts us : List SyntaxTree}

theorem le {lo hi : Nat} (h : PlacedIn entries lo hi ts) : lo ≤ hi := by
  induction ts generalizing lo with
  | nil => exact h
  | cons t ts ih =>
    rw [PlacedIn] at h
    obtain ⟨r, hlo, hle, -, hrest⟩ := h
    exact hlo.trans (hle.trans (ih hrest))

theorem append {lo mid hi : Nat} (hts : PlacedIn entries lo mid ts)
    (hus : PlacedIn entries mid hi us) : PlacedIn entries lo hi (ts ++ us) := by
  induction ts generalizing lo with
  | nil =>
    -- nothing stands before `us`, which may begin at any edge up to `mid`
    rw [List.nil_append]
    cases us with
    | nil => exact Nat.le_trans hts hus
    | cons u us =>
      rw [PlacedIn] at hus ⊢
      obtain ⟨r, hmid, hle, hu, hrest⟩ := hus
      exact ⟨r, Nat.le_trans hts hmid, hle, hu, hrest⟩
  | cons t ts ih =>
    rw [List.cons_append]
    rw [PlacedIn] at hts ⊢
    obtain ⟨r, hlo, hle, ht, hrest⟩ := hts
    exact ⟨r, hlo, hle, ht, ih hrest⟩

/-- A tree of several placed ones has a range inside their bounds. -/
theorem exists_of_mem {lo hi : Nat} (h : PlacedIn entries lo hi ts) {t : SyntaxTree}
    (ht : t ∈ ts) : ∃ r, (t.id, r) ∈ entries ∧ lo ≤ r.lowEdge ∧ r.lowEdge ≤ r.highEdge ∧
      r.highEdge ≤ hi := by
  induction ts generalizing lo with
  | nil => exact absurd ht List.not_mem_nil
  | cons u ts ih =>
    rw [PlacedIn] at h
    obtain ⟨r, hlo, hle, hu, hrest⟩ := h
    rcases List.mem_cons.1 ht with rfl | ht
    · exact ⟨r, hu.id_mem, hlo, hle, hrest.le⟩
    · obtain ⟨s, hs, hlo', hle', hhi⟩ := ih hrest ht
      exact ⟨s, hs, hlo.trans (hle.trans hlo'), hle', hhi⟩

/-- Of two trees placed one after the other the first one stops where the second one starts or
before. -/
theorem pairwise {lo hi : Nat} (h : PlacedIn entries lo hi ts) :
    ts.Pairwise fun t u => ∃ r s, (t.id, r) ∈ entries ∧ (u.id, s) ∈ entries ∧
      r.highEdge ≤ s.lowEdge := by
  induction ts generalizing lo with
  | nil => exact List.Pairwise.nil
  | cons t ts ih =>
    rw [PlacedIn] at h
    obtain ⟨r, -, -, ht, hrest⟩ := h
    refine List.Pairwise.cons (fun u hu => ?_) (ih hrest)
    obtain ⟨s, hs, hle, -, -⟩ := hrest.exists_of_mem hu
    exact ⟨r, s, ht.id_mem, hs, hle⟩

end PlacedIn

/-! ### Going on -/

/-- Marking goes on from one state to another: the cursor does not move back, no range is taken
away, and ranges that are given are ranges of tokens that there are. -/
structure Pass.Advances (size : Nat) (s s' : Pass) : Prop where
  cursor_le : s.cursor ≤ s'.cursor
  subset : s.ranges.entries ⊆ s'.ranges.entries
  inBounds : ∀ e ∈ s'.ranges.entries, e ∈ s.ranges.entries ∨ e.2.InBounds size

namespace Pass.Advances

variable {size : Nat} {s s' s'' : Pass}

theorem of_ranges_eq (hcursor : s.cursor ≤ s'.cursor) (hranges : s'.ranges = s.ranges) :
    s.Advances size s' :=
  ⟨hcursor, by rw [hranges]; exact List.Subset.refl _, fun e he => Or.inl (hranges ▸ he)⟩

theorem trans (h : s.Advances size s') (h' : s'.Advances size s'') : s.Advances size s'' := by
  refine ⟨h.cursor_le.trans h'.cursor_le, List.Subset.trans h.subset h'.subset, fun e he => ?_⟩
  rcases h'.inBounds e he with he | he
  · exact h.inBounds e he
  · exact Or.inr he

theorem give (s : Pass) (ids : List NodeId) {r : TokenRange} (hr : r.InBounds size) :
    s.Advances size (s.give ids r) := by
  refine ⟨le_rfl, fun e he => mem_entries_give.2 (Or.inr he), fun e he => ?_⟩
  rcases mem_entries_give.1 he with ⟨-, heq⟩ | he
  · rw [heq]
    exact Or.inr hr
  · exact Or.inl he

end Pass.Advances

/-- What the claim of a visited tree says about it: the tokens lie from `floor` on and before the
cursor, and the tree is placed there, or all of its nodes wait. -/
def Claim.Places (m : Marker) (floor : Nat) (s : Pass) (t : SyntaxTree) : Claim → Prop
  | .tokens span => span.Within floor m.size ∧ span.last < s.cursor ∧
      Placed s.ranges.entries t (TokenRange.ofTokens span.first span.last)
  | .nothing waiting => ∀ id ∈ t.preorder, id ∈ waiting

/-! ### Frames -/

/-- A frame between two children. The children it has adopted are those in `placed` and then those
in `waiting`. -/
structure Frame.Holds (m : Marker) (f : Frame) (s : Pass) (placed waiting : List SyntaxTree) :
    Prop where
  floor_le : f.floor ≤ s.cursor
  within : ∀ c ∈ f.head?.toList ++ f.spans, c.Within f.floor m.size
  last_lt : ∀ c ∈ f.spans, c.last < s.cursor
  /-- Placed children lie between all edges that bound the spans. -/
  placedIn : ∀ lo hi, lo ≤ hi → (∀ c ∈ f.spans, lo ≤ 2 * c.first ∧ 2 * c.last + 1 ≤ hi) →
    PlacedIn s.ranges.entries lo hi placed
  placed_eq_nil : f.spans = [] → placed = []
  waits : ∀ id ∈ preorderAll waiting, id ∈ f.waiting

namespace Frame.Holds

variable {m : Marker} {f f' : Frame} {s s' : Pass} {placed waiting : List SyntaxTree}

theorem enter {id : NodeId} {rule? : Option Rule} {parentFloor : Nat}
    (h : m.enter id rule? parentFloor s = (f, s')) :
    f.Holds m s' [] [] ∧ f.floor = s.cursor ∧ s.Advances m.size s' := by
  obtain ⟨hfloor, hspans, -, hranges, -, hhead⟩ := Marker.enter_eq h
  have hcursor : s.cursor ≤ s'.cursor := by
    rcases hhead with ⟨-, hcursor⟩ | ⟨head, -, hwithin, hcursor⟩
    · exact hcursor.ge
    · have := hwithin.lo_le
      have := hwithin.first_le_last
      omega
  refine ⟨⟨hfloor ▸ hcursor, ?_, by simp [hspans], fun lo hi hle _ => hle, fun _ => rfl,
    by simp [preorderAll]⟩, hfloor, .of_ranges_eq hcursor hranges⟩
  rw [hspans, List.append_nil, hfloor]
  rcases hhead with ⟨hnone, -⟩ | ⟨head, hsome, hwithin, -⟩
  · simp [hnone]
  · simpa [hsome] using hwithin

theorem introduce {rule? : Option Rule} (h : m.introduce rule? f s = (f', s'))
    (hf : f.Holds m s placed waiting) :
    f'.Holds m s' placed waiting ∧ f'.floor = f.floor ∧ s.Advances m.size s' := by
  obtain ⟨hfloor, hspans, hwaiting, hranges, -, hhead⟩ := Marker.introduce_eq h
  have hcursor : s.cursor ≤ s'.cursor := by
    rcases hhead with ⟨-, hcursor⟩ | ⟨span, hwithin, hcursor, -⟩
    · exact hcursor.ge
    · have := hwithin.lo_le
      have := hwithin.first_le_last
      omega
  have hhead' : ∀ c ∈ f'.head?.toList, c.Within f.floor m.size := by
    have hold : ∀ c ∈ f.head?.toList, c.Within f.floor m.size := fun c hc =>
      hf.within c (List.mem_append_left _ hc)
    rcases hhead with ⟨heq, -⟩ | ⟨span, hwithin, -, heq | ⟨head, hsome, heq⟩⟩
    · rwa [heq]
    · rw [heq]
      simpa using hwithin.mono hf.floor_le
    · rw [heq]
      simpa using (hold head (by simp [hsome])).union (hwithin.mono hf.floor_le)
  refine ⟨⟨?_, ?_, ?_, ?_, ?_, ?_⟩, hfloor, .of_ranges_eq hcursor hranges⟩
  · exact hfloor ▸ hf.floor_le.trans hcursor
  · intro c hc
    rw [hfloor]
    rcases List.mem_append.1 hc with hc | hc
    · exact hhead' c hc
    · exact hf.within c (List.mem_append_right _ (hspans ▸ hc))
  · intro c hc
    exact (hf.last_lt c (hspans ▸ hc)).trans_le hcursor
  · rw [hspans, hranges]
    exact hf.placedIn
  · rw [hspans]
    exact hf.placed_eq_nil
  · rw [hwaiting]
    exact hf.waits

/-- A child without tokens waits. -/
theorem adopt_nothing (hf : f.Holds m s placed waiting) (hs : s.Advances m.size s')
    {ids : List NodeId} {t : SyntaxTree} (hids : ∀ id ∈ t.preorder, id ∈ ids) :
    (f.adopt (.nothing ids) s').1.Holds m s' placed (waiting ++ [t]) := by
  rw [Frame.adopt_nothing]
  refine ⟨hf.floor_le.trans hs.cursor_le, hf.within, ?_, ?_, hf.placed_eq_nil, ?_⟩
  · intro c hc
    exact (hf.last_lt c hc).trans_le hs.cursor_le
  · intro lo hi hle hbounds
    exact Placed.mono_all hs.subset _ (hf.placedIn lo hi hle hbounds)
  · intro id hid
    rw [SyntaxTree.preorderAll_append, List.mem_append, preorderAll, preorderAll,
      List.append_nil] at hid
    rcases hid with hid | hid
    · exact List.mem_append_left _ (hf.waits id hid)
    · exact List.mem_append_right _ (hids id hid)

/-- A child with tokens is placed after all that was placed before, and what waited is placed right
before it. -/
theorem adopt_tokens (hf : f.Holds m s placed waiting) (hs : s.Advances m.size s') {span : Span}
    {t : SyntaxTree} (hclaim : (Claim.tokens span).Places m s.cursor s' t)
    (hgive : s'.Advances m.size (s'.give f.waiting (TokenRange.emptyBefore span.first))) :
    (f.adopt (.tokens span) s').1.Holds m
      (s'.give f.waiting (TokenRange.emptyBefore span.first)) (placed ++ waiting ++ [t]) [] := by
  obtain ⟨hwithin, hlast, ht⟩ := hclaim
  have hfirst := hwithin.first_le_last
  rw [Frame.adopt_tokens]
  refine ⟨hf.floor_le.trans hs.cursor_le, ?_, ?_, ?_, by simp, by simp [preorderAll]⟩
  · intro c hc
    rw [← List.append_assoc, List.mem_append, List.mem_singleton] at hc
    rcases hc with hc | rfl
    · exact hf.within c hc
    · exact hwithin.mono hf.floor_le
  · intro c hc
    rcases List.mem_append.1 hc with hc | hc
    · exact (hf.last_lt c hc).trans_le hs.cursor_le
    · rwa [List.mem_singleton.1 hc]
  · intro lo hi hle hbounds
    obtain ⟨hlo, hhi⟩ := hbounds span (by simp)
    -- all earlier spans end before the cursor, where `span` was looked for
    have hplaced := hf.placedIn lo (2 * span.first) hlo fun c hc => by
      have := hf.last_lt c hc
      have := hwithin.lo_le
      exact ⟨(hbounds c (List.mem_append_left _ hc)).1, by omega⟩
    have hwaiting : PlacedIn
        (s'.give f.waiting (TokenRange.emptyBefore span.first)).ranges.entries
        (2 * span.first) (2 * span.first) waiting :=
      Placed.of_forall_mem_all (r := TokenRange.emptyBefore span.first) rfl waiting fun id hid =>
        Pass.mem_give (hf.waits id hid) _
    have htree : PlacedIn (s'.give f.waiting (TokenRange.emptyBefore span.first)).ranges.entries
        (2 * span.first) hi [t] := by
      rw [PlacedIn]
      exact ⟨TokenRange.ofTokens span.first span.last, le_rfl,
        by rw [TokenRange.lowEdge_ofTokens, TokenRange.highEdge_ofTokens]; omega,
        Placed.mono hgive.subset t ht, hhi⟩
    exact ((Placed.mono_all (hs.trans hgive).subset _ hplaced).append hwaiting).append htree

/-- What a child claims is adopted after all that was adopted before. -/
theorem adopt (hf : f.Holds m s placed waiting) (hs : s.Advances m.size s') {claim : Claim}
    {t : SyntaxTree} (hclaim : claim.Places m s.cursor s' t) :
    ∃ placed' waiting', placed' ++ waiting' = placed ++ waiting ++ [t] ∧
      (f.adopt claim s').1.Holds m (f.adopt claim s').2 placed' waiting' ∧
      s'.Advances m.size (f.adopt claim s').2 := by
  cases claim with
  | nothing ids =>
    exact ⟨placed, waiting ++ [t], (List.append_assoc _ _ _).symm, hf.adopt_nothing hs hclaim,
      .of_ranges_eq le_rfl rfl⟩
  | tokens span =>
    have hgive : s'.Advances m.size (s'.give f.waiting (TokenRange.emptyBefore span.first)) :=
      .give s' f.waiting ⟨le_rfl, hclaim.1.first_le_last.trans_lt hclaim.1.last_lt⟩
    exact ⟨placed ++ waiting ++ [t], [], List.append_nil _, hf.adopt_tokens hs hclaim hgive, hgive⟩

/-- A node that is left with tokens is placed with all its children, and what waited is placed at its
end; otherwise it waits with all nodes below it. -/
theorem leave {id : NodeId} {kind : String} {literal? : Option Literal} {rule? : Option Rule}
    {parentFloor : Nat} {claim : Claim}
    (h : m.leave id kind literal? rule? parentFloor f s = .ok (claim, s'))
    (hf : f.Holds m s placed waiting) :
    claim.Places m f.floor s' (.node id kind literal? (placed ++ waiting)) ∧
      s.Advances m.size s' := by
  rcases Marker.leave_cases h with ⟨hnone, rfl, rfl⟩ |
    ⟨found, span, hfound, rfl, rfl, hcursor, -, hgiven⟩
  · obtain ⟨-, hspans⟩ := of_hull?_eq_none hnone
    refine ⟨fun x hx => ?_, .of_ranges_eq le_rfl rfl⟩
    rw [hf.placed_eq_nil hspans, List.nil_append, preorder, List.mem_cons] at hx
    rcases hx with rfl | hx
    · exact List.mem_append_right _ List.mem_cons_self
    · exact List.mem_append_left _ (hf.waits x hx)
  · have hwithin : found.Within f.floor m.size := by
      rcases hfound with hsome | ⟨-, hwithin⟩
      · exact (of_hull?_eq_some hsome).2 _ _ hf.within
      · exact hwithin.mono hf.floor_le
    obtain ⟨hspan, hcovers⟩ : m.Extends f.floor found (m.extend rule? f.floor f.spans found) :=
      Marker.extends_extend hwithin
    have hchildren : ∀ c ∈ f.spans, (m.extend rule? f.floor f.spans found).Covers c := by
      intro c hc
      rcases hfound with hsome | ⟨hnone, -⟩
      · exact hcovers.trans ((of_hull?_eq_some hsome).1 c (List.mem_append_right _ hc))
      · rw [(of_hull?_eq_none hnone).2] at hc
        exact absurd hc List.not_mem_nil
    generalize m.extend rule? f.floor f.spans found = span at *
    have hfirst := hspan.first_le_last
    have hown : s.Advances m.size (s.give [id] (TokenRange.ofTokens span.first span.last)) :=
      .give s [id] ⟨hfirst, hspan.last_lt⟩
    have hbelow : (s.give [id] (TokenRange.ofTokens span.first span.last)).Advances m.size
        ((s.give [id] (TokenRange.ofTokens span.first span.last)).give f.waiting
          (TokenRange.emptyAfter span.last)) := .give _ f.waiting ⟨le_rfl, hspan.last_lt⟩
    have hs' : s.Advances m.size s' := by
      refine (hown.trans hbelow).trans (.of_ranges_eq ?_ hgiven)
      rw [hcursor, Pass.cursor_give, Pass.cursor_give]
      exact le_max_left _ _
    refine ⟨⟨hspan, by omega, ?_⟩, hs'⟩
    have hplaced := hf.placedIn (2 * span.first) (2 * span.last + 1) (by omega) fun c hc => by
      have := (hchildren c hc).1
      have := (hchildren c hc).2
      omega
    have hwaiting : PlacedIn s'.ranges.entries (2 * span.last + 1) (2 * span.last + 1) waiting := by
      rw [hgiven]
      exact Placed.of_forall_mem_all (r := TokenRange.emptyAfter span.last) rfl waiting fun x hx =>
        Pass.mem_give (hf.waits x hx) _
    rw [Placed]
    refine ⟨?_, (Placed.mono_all hs'.subset _ hplaced).append hwaiting⟩
    rw [hgiven]
    exact hbelow.subset (Pass.mem_give List.mem_cons_self _)

end Frame.Holds

/-! ### Visits -/

namespace Marker

variable {m : Marker}

mutual

/-- A visit places its tree in the tokens it claims, or all nodes of the tree wait. -/
theorem visit_places : (t : SyntaxTree) → ∀ {parentFloor : Nat} {s s' : Pass} {claim : Claim},
    m.visit parentFloor t s = .ok (claim, s') →
      claim.Places m s.cursor s' t ∧ s.Advances m.size s'
  | .node id kind literal? children, parentFloor, s, s', claim, h => by
      rcases henter : m.enter id (m.policy.rule? kind) parentFloor s with ⟨f₀, s₀⟩
      obtain ⟨hf₀, hfloor₀, hs₀⟩ := Frame.Holds.enter henter
      rw [visit_node, henter] at h
      obtain ⟨⟨f₁, s₁⟩, hall, hleave⟩ := bind_eq_ok h
      obtain ⟨placed, waiting, heq, hf₁, hfloor₁, hs₁⟩ := visitAll_places children hall hf₀
      obtain ⟨hclaim, hs'⟩ := hf₁.leave hleave
      rw [hfloor₁, hfloor₀, heq] at hclaim
      exact ⟨hclaim, (hs₀.trans hs₁).trans hs'⟩

/-- The same for the children that are left, after those that the frame has adopted. -/
theorem visitAll_places : (ts : List SyntaxTree) → ∀ {rule? : Option Rule} {f f' : Frame}
    {s s' : Pass} {placed waiting : List SyntaxTree},
    m.visitAll rule? ts f s = .ok (f', s') → f.Holds m s placed waiting →
      ∃ placed' waiting', placed' ++ waiting' = placed ++ waiting ++ ts ∧
        f'.Holds m s' placed' waiting' ∧ f'.floor = f.floor ∧ s.Advances m.size s'
  | [], rule?, f, f', s, s', placed, waiting, h, hf => by
      obtain ⟨rfl, rfl⟩ := Prod.mk.inj (Except.ok.inj h)
      exact ⟨placed, waiting, (List.append_nil _).symm, hf, rfl, .of_ranges_eq le_rfl rfl⟩
  | child :: rest, rule?, f, f', s, s', placed, waiting, h, hf => by
      rcases hintro : m.introduce rule? f s with ⟨f₀, s₀⟩
      obtain ⟨hf₀, hfloor₀, hs₀⟩ := hf.introduce hintro
      rw [visitAll_cons, hintro] at h
      obtain ⟨⟨claim, s₁⟩, hchild, hrest⟩ := bind_eq_ok h
      obtain ⟨hclaim, hs₁⟩ := visit_places child hchild
      obtain ⟨placed₁, waiting₁, heq₁, hf₁, hs₂⟩ := hf₀.adopt hs₁ hclaim
      obtain ⟨placed', waiting', heq, hf', hfloor, hs'⟩ := visitAll_places rest hrest hf₁
      refine ⟨placed', waiting', ?_, hf', ?_, ((hs₀.trans hs₁).trans hs₂).trans hs'⟩
      · rw [heq, heq₁, List.append_assoc, List.singleton_append]
      · rw [hfloor, Frame.floor_adopt, hfloor₀]

end

/-- Visiting children takes no range away. -/
theorem subset_of_visitAll {ts : List SyntaxTree} {rule? : Option Rule} {f f' : Frame} {s s' : Pass}
    (h : m.visitAll rule? ts f s = .ok (f', s')) : s.ranges.entries ⊆ s'.ranges.entries := by
  induction ts generalizing f s with
  | nil =>
    obtain ⟨-, rfl⟩ := Prod.mk.inj (Except.ok.inj h)
    exact List.Subset.refl _
  | cons child rest ih =>
    rcases hintro : m.introduce rule? f s with ⟨f₀, s₀⟩
    obtain ⟨-, -, -, hranges, -, -⟩ := introduce_eq hintro
    rw [visitAll_cons, hintro] at h
    obtain ⟨⟨claim, s₁⟩, hchild, hrest⟩ := bind_eq_ok h
    rw [← hranges]
    have hvisit : s₀.ranges.entries ⊆ s₁.ranges.entries := (visit_places child hchild).2.subset
    exact List.Subset.trans (List.Subset.trans hvisit (f₀.subset_adopt claim s₁)) (ih hrest)

/-- A marked tree is placed as a whole, and all ranges are ranges of tokens that there are. -/
theorem placed_of_markTree {tree : SyntaxTree} {s : Pass} (h : m.markTree tree = .ok s) :
    (∃ r, Placed s.ranges.entries tree r) ∧ ∀ e ∈ s.ranges.entries, e.2.InBounds m.size := by
  obtain ⟨hsize, claim, s₁, hvisit, hs⟩ := markTree_cases h
  obtain ⟨hclaim, hs₁⟩ := visit_places tree hvisit
  have hbounds : ∀ e ∈ s₁.ranges.entries, e.2.InBounds m.size := fun e he =>
    (hs₁.inBounds e he).resolve_left List.not_mem_nil
  rcases hs with ⟨⟨span, rfl⟩, rfl⟩ | ⟨waiting, rfl, rfl⟩
  · exact ⟨⟨_, hclaim.2.2⟩, hbounds⟩
  · have hplace : (TokenRange.emptyBefore (min s₁.cursor (m.size - 1))).InBounds m.size :=
      ⟨le_rfl, by show min s₁.cursor (m.size - 1) < m.size; omega⟩
    have hempty : (TokenRange.emptyBefore (min s₁.cursor (m.size - 1))).lowEdge =
        (TokenRange.emptyBefore (min s₁.cursor (m.size - 1))).highEdge := rfl
    generalize TokenRange.emptyBefore (min s₁.cursor (m.size - 1)) = r at *
    refine ⟨⟨r, Placed.of_forall_mem hempty tree fun x hx => Pass.mem_give (hclaim x hx) r⟩, ?_⟩
    intro e he
    rcases (Pass.Advances.give s₁ waiting hplace).inBounds e he with he | he
    · exact hbounds e he
    · exact he

end Marker

/-! ### Marked graphs -/

section marked

variable {source : Source} {policy : PolicyTable} {g : NodeTable} {root : NodeId}
  {ranges : RangeTable}

theorem nodup_ids_of_mark (h : mark source policy g root = .ok ranges) : ranges.ids.Nodup :=
  (ids_perm_walk_of_mark h).nodup_iff.2 (g.nodup_walk root)

theorem exists_get?_of_mark (h : mark source policy g root = .ok ranges) {id : NodeId}
    (hid : id ∈ g.walk root) : ∃ r, ranges.get? id = some r := by
  have hmem := (ids_perm_walk_of_mark h).mem_iff.2 hid
  exact Option.isSome_iff_exists.1 (RangeTable.contains_iff_mem_ids.2 hmem)

theorem placed_of_mark (h : mark source policy g root = .ok ranges) {t : SyntaxTree}
    (ht : t ∈ (g.unfolding root).subtrees) : ∃ r, Placed ranges.entries t r := by
  obtain ⟨s, hs, rfl⟩ := exists_of_mark_eq_ok h
  obtain ⟨r, hr⟩ := (Marker.placed_of_markTree hs).1
  exact hr.of_mem_subtrees _ t ht

theorem inBounds_of_mark (h : mark source policy g root = .ok ranges) {id : NodeId}
    {r : TokenRange} (hr : ranges.get? id = some r) : r.InBounds source.size := by
  obtain ⟨s, hs, rfl⟩ := exists_of_mark_eq_ok h
  exact (Marker.placed_of_markTree hs).2 _ (RangeTable.mem_of_get?_eq_some hr)

/-- The edges of a node lie between those of its parent. -/
theorem edges_of_parent? (h : mark source policy g root = .ok ranges) {p c : NodeId}
    {r s : TokenRange} (hp : g.parent? root c = some p) (hr : ranges.get? p = some r)
    (hs : ranges.get? c = some s) :
    r.lowEdge ≤ s.lowEdge ∧ s.lowEdge ≤ s.highEdge ∧ s.highEdge ≤ r.highEdge := by
  obtain ⟨t, ht, rfl, u, hu, rfl⟩ := NodeTable.parent?_eq_some_iff.1 hp
  obtain ⟨r', hr'⟩ := placed_of_mark h ht
  have hr'' := RangeTable.get?_eq_some_of_mem (nodup_ids_of_mark h) hr'.id_mem
  obtain rfl := Option.some.inj (hr.symm.trans hr'')
  obtain ⟨s', hs', hlo, hle, hhi⟩ := hr'.children.exists_of_mem hu
  have hs'' := RangeTable.get?_eq_some_of_mem (nodup_ids_of_mark h) hs'
  obtain rfl := Option.some.inj (hs.symm.trans hs'')
  exact ⟨hlo, hle, hhi⟩

/-- Of two children of one node the first one stops where the second one starts or before. -/
theorem edges_pairwise_reachedFrom (h : mark source policy g root = .ok ranges) (p : NodeId) :
    (g.reachedFrom root p).Pairwise fun a b => ∀ r s, ranges.get? a = some r →
      ranges.get? b = some s → r.highEdge ≤ s.lowEdge := by
  rcases g.reachedFrom_eq_nil_or_map root p with hnil | ⟨t, ht, hmap⟩
  · rw [hnil]
    exact List.Pairwise.nil
  · obtain ⟨r, hr⟩ := placed_of_mark h ht
    rw [hmap, List.pairwise_map]
    refine hr.children.pairwise.imp fun {a b} hab r s hr hs => ?_
    obtain ⟨r', s', hr', hs', hle⟩ := hab
    have hr'' := RangeTable.get?_eq_some_of_mem (nodup_ids_of_mark h) hr'
    have hs'' := RangeTable.get?_eq_some_of_mem (nodup_ids_of_mark h) hs'
    obtain rfl := Option.some.inj (hr.symm.trans hr'')
    obtain rfl := Option.some.inj (hs.symm.trans hs'')
    exact hle

/-- The byte offsets of a node lie between those of its parent. -/
theorem textRange_of_parent? (h : mark source policy g root = .ok ranges) (horder : source.InOrder)
    {p c : NodeId} {r s : TokenRange} (hp : g.parent? root c = some p)
    (hr : ranges.get? p = some r) (hs : ranges.get? c = some s) :
    (r.textRange source).1 ≤ (s.textRange source).1 ∧
      (s.textRange source).1 ≤ (s.textRange source).2 ∧
      (s.textRange source).2 ≤ (r.textRange source).2 := by
  obtain ⟨hlo, hle, hhi⟩ := edges_of_parent? h hp hr hs
  have hsize := r.highEdge_lt (inBounds_of_mark h hr)
  rw [TokenRange.textRange_eq, TokenRange.textRange_eq]
  exact ⟨horder.edgeOffset_le hlo (by omega), horder.edgeOffset_le hle (by omega),
    horder.edgeOffset_le hhi hsize⟩

/-- The byte offsets of two children of one node do not overlap. -/
theorem textRange_pairwise_reachedFrom (h : mark source policy g root = .ok ranges)
    (horder : source.InOrder) (p : NodeId) :
    (g.reachedFrom root p).Pairwise fun a b => ∀ r s, ranges.get? a = some r →
      ranges.get? b = some s → (r.textRange source).2 ≤ (s.textRange source).1 := by
  refine (edges_pairwise_reachedFrom h p).imp fun {a b} hab r s hr hs => ?_
  have hsize := s.lowEdge_lt (inBounds_of_mark h hs)
  rw [TokenRange.textRange_eq, TokenRange.textRange_eq]
  exact horder.edgeOffset_le (hab r s hr hs) hsize

/-- **The ranges of a marked graph are nested.** The parent of a node is the node from which the walk
first reaches it. All nodes of the walk have ranges of tokens that there are; the tokens of a node lie
among those of its parent, and siblings with tokens have theirs in the order of the walk, none in
common. If the tokens are in order then all ranges, empty ones too, lie inside those of the parents
and behind those of earlier siblings in the text. -/
theorem marking_nests (h : mark source policy g root = .ok ranges) :
    (∀ id ∈ g.walk root, ∃ r, ranges.get? id = some r) ∧
      (∀ id r, ranges.get? id = some r → r.first ≤ r.last ∧ r.last < source.size) ∧
      (∀ p c r s, g.parent? root c = some p → ranges.get? p = some r → ranges.get? c = some s →
        s.isEmpty = false → r.first ≤ s.first ∧ s.last ≤ r.last) ∧
      (∀ p, (g.reachedFrom root p).Pairwise fun a b => ∀ r s, ranges.get? a = some r →
        ranges.get? b = some s → r.isEmpty = false → s.isEmpty = false → r.last < s.first) ∧
      (source.InOrder →
        (∀ p c r s, g.parent? root c = some p → ranges.get? p = some r → ranges.get? c = some s →
          (r.textRange source).1 ≤ (s.textRange source).1 ∧
            (s.textRange source).1 ≤ (s.textRange source).2 ∧
            (s.textRange source).2 ≤ (r.textRange source).2) ∧
        ∀ p, (g.reachedFrom root p).Pairwise fun a b => ∀ r s, ranges.get? a = some r →
          ranges.get? b = some s → (r.textRange source).2 ≤ (s.textRange source).1) := by
  refine ⟨fun id => exists_get?_of_mark h, fun id r => inBounds_of_mark h, ?_, ?_,
    fun horder => ⟨fun p c r s => textRange_of_parent? h horder,
      textRange_pairwise_reachedFrom h horder⟩⟩
  · intro p c r s hp hr hs hempty
    obtain ⟨hlo, -, hhi⟩ := edges_of_parent? h hp hr hs
    have hle := (inBounds_of_mark h hs).1
    obtain ⟨hlow, hhigh⟩ := TokenRange.edges_of_not_isEmpty hempty
    rw [hlow] at hlo
    rw [hhigh] at hhi
    -- a range that is empty has no room for tokens between its edges
    obtain ⟨first, last, anchor⟩ := r
    cases anchor <;> simp only [TokenRange.lowEdge, TokenRange.highEdge] at hlo hhi ⊢ <;> omega
  · intro p
    refine (edges_pairwise_reachedFrom h p).imp fun {a b} hab r s hr hs hra hsb => ?_
    have hle := hab r s hr hs
    rw [(TokenRange.edges_of_not_isEmpty hra).2, (TokenRange.edges_of_not_isEmpty hsb).1] at hle
    omega

end marked

/-! ### A call with an empty node -/

/-- The tokens of the call `f(x)`. -/
def callSource : Source where
  text := ['f', '(', 'x', ')']
  tokens := #[
    ⟨⟨.name, ['f'], ⟨1, 0⟩, ⟨1, 1⟩, ['f', '(', 'x', ')']⟩, 0, 0, 1⟩,
    ⟨⟨.op, ['('], ⟨1, 1⟩, ⟨1, 2⟩, ['f', '(', 'x', ')']⟩, 1, 1, 2⟩,
    ⟨⟨.name, ['x'], ⟨1, 2⟩, ⟨1, 3⟩, ['f', '(', 'x', ')']⟩, 2, 2, 3⟩,
    ⟨⟨.op, [')'], ⟨1, 3⟩, ⟨1, 4⟩, ['f', '(', 'x', ')']⟩, 3, 3, 4⟩]

/-- A call with an empty node between the name and the argument. -/
def callGraph : NodeTable where
  nodes := [
    (1, ⟨"Call", some [2, 3, 4], [], none, none⟩),
    (2, ⟨"Name", some [], [], none, some (.text ['f'])⟩),
    (3, ⟨"Load", some [], [], none, none⟩),
    (4, ⟨"Name", some [], [], none, some (.text ['x'])⟩)]

/-- The ranges of the call and of the nodes in it. -/
def callRanges : RangeTable where
  entries := [(1, .ofTokens 0 3), (3, .emptyBefore 2), (4, .ofTokens 2 2), (2, .ofTokens 0 0)]

theorem marking_nests_call :
    mark callSource .empty callGraph 1 = .ok callRanges ∧ callSource.InOrder ∧
      callGraph.parent? 1 3 = some 1 ∧
      ((TokenRange.ofTokens 0 3).textRange callSource).1 ≤
        ((TokenRange.emptyBefore 2).textRange callSource).1 ∧
      ((TokenRange.emptyBefore 2).textRange callSource).2 ≤
        ((TokenRange.ofTokens 0 3).textRange callSource).2 := by
  have hmark : mark callSource .empty callGraph 1 = .ok callRanges := by decide +kernel
  have horder : callSource.InOrder := by
    unfold Source.InOrder
    decide
  have hparent : callGraph.parent? 1 3 = some 1 := by
    rw [NodeTable.parent?, ← NodeTable.preorder_unfolding]
    rfl
  obtain ⟨hlo, -, hhi⟩ := ((marking_nests hmark).2.2.2.2 horder).1 1 3 _ _ hparent rfl rfl
  exact ⟨hmark, horder, hparent, hlo, hhi⟩

end SourceSpans
