import SourceSpans.Proofs.Except
import SourceSpans.Proofs.Mark.Bounds

/-!
# The steps of marking

Marking is made of five steps: a node is entered, its `intro` is claimed, what a child hands on is
adopted, the node is left, and at the end the nodes that still wait are given a place. Each step has
one statement here that says all it does to the cursor, the ranges and the nodes entered:
`enter_eq`, `introduce_eq`, `adopt_tokens`, `adopt_nothing` and `leave_cases`. A visit is the sequence
of these steps (`visit_node`, `visitAll_cons`).
-/

namespace SourceSpans

/-! ### Giving ranges -/

namespace RangeTable

/-- Ranges given to several nodes stand before those given earlier. -/
theorem entries_insertAll (t : RangeTable) (ids : List NodeId) (r : TokenRange) :
    (t.insertAll ids r).entries = (ids.map fun id => (id, r)).reverse ++ t.entries := by
  unfold insertAll
  induction ids generalizing t with
  | nil => rfl
  | cons id ids ih =>
    rw [List.foldl_cons, ih]
    simp [insert]

end RangeTable

namespace Pass

@[simp] theorem cursor_give (s : Pass) (ids : List NodeId) (r : TokenRange) :
    (s.give ids r).cursor = s.cursor := rfl

@[simp] theorem entered_give (s : Pass) (ids : List NodeId) (r : TokenRange) :
    (s.give ids r).entered = s.entered := rfl

@[simp] theorem entries_give (s : Pass) (ids : List NodeId) (r : TokenRange) :
    (s.give ids r).ranges.entries = (ids.map fun id => (id, r)).reverse ++ s.ranges.entries :=
  s.ranges.entries_insertAll ids r

/-- A node has what it had before, and the range if it is one of those that were given it. -/
theorem mem_entries_give {s : Pass} {ids : List NodeId} {r : TokenRange} {e : NodeId × TokenRange} :
    e ∈ (s.give ids r).ranges.entries ↔ e.1 ∈ ids ∧ e.2 = r ∨ e ∈ s.ranges.entries := by
  rw [entries_give, List.mem_append, List.mem_reverse, List.mem_map]
  refine or_congr_left ⟨?_, ?_⟩
  · rintro ⟨id, hid, rfl⟩
    exact ⟨hid, rfl⟩
  · rintro ⟨hid, rfl⟩
    exact ⟨e.1, hid, rfl⟩

theorem mem_give {s : Pass} {ids : List NodeId} {id : NodeId} (h : id ∈ ids) (r : TokenRange) :
    (id, r) ∈ (s.give ids r).ranges.entries :=
  mem_entries_give.2 (Or.inl ⟨h, rfl⟩)

end Pass

namespace Frame

theorem adopt_tokens (f : Frame) (s : Pass) (span : Span) :
    f.adopt (.tokens span) s =
      ({ f with spans := f.spans ++ [span], waiting := [] },
        s.give f.waiting (TokenRange.emptyBefore span.first)) := rfl

theorem adopt_nothing (f : Frame) (s : Pass) (waiting : List NodeId) :
    f.adopt (.nothing waiting) s = ({ f with waiting := f.waiting ++ waiting }, s) := rfl

/-- Adopting what a child hands on takes no range away. -/
theorem subset_adopt (f : Frame) (claim : Claim) (s : Pass) :
    s.ranges.entries ⊆ (f.adopt claim s).2.ranges.entries := by
  cases claim with
  | tokens span => exact fun e he => Pass.mem_entries_give.2 (Or.inr he)
  | nothing waiting => exact List.Subset.refl _

theorem cursor_adopt (f : Frame) (claim : Claim) (s : Pass) : (f.adopt claim s).2.cursor = s.cursor := by
  cases claim <;> rfl

theorem floor_adopt (f : Frame) (claim : Claim) (s : Pass) : (f.adopt claim s).1.floor = f.floor := by
  cases claim <;> rfl

theorem head?_adopt (f : Frame) (claim : Claim) (s : Pass) : (f.adopt claim s).1.head? = f.head? := by
  cases claim <;> rfl

theorem foldl_union_covers (spans : List Span) (span : Span) :
    (spans.foldl Span.union span).Covers span ∧
      ∀ c ∈ spans, (spans.foldl Span.union span).Covers c := by
  induction spans generalizing span with
  | nil => exact ⟨.refl span, by simp⟩
  | cons a spans ih =>
    obtain ⟨hunion, hall⟩ := ih (span.union a)
    refine ⟨hunion.trans (span.union_covers_left a), fun c hc => ?_⟩
    rcases List.mem_cons.1 hc with rfl | hc
    · exact hunion.trans (span.union_covers_right c)
    · exact hall c hc

theorem foldl_union_within {lo hi : Nat} (spans : List Span) {span : Span}
    (h : span.Within lo hi) (hall : ∀ c ∈ spans, c.Within lo hi) :
    (spans.foldl Span.union span).Within lo hi := by
  induction spans generalizing span with
  | nil => exact h
  | cons a spans ih =>
    exact ih (h.union (hall a List.mem_cons_self)) fun c hc => hall c (List.mem_cons_of_mem _ hc)

/-- The hull of a frame covers its head and the spans of its children, and lies where they lie. -/
theorem of_hull?_eq_some {f : Frame} {hull : Span} (h : f.hull? = some hull) :
    (∀ c ∈ f.head?.toList ++ f.spans, hull.Covers c) ∧
      ∀ lo hi, (∀ c ∈ f.head?.toList ++ f.spans, c.Within lo hi) → hull.Within lo hi := by
  unfold hull? at h
  split at h
  · cases h
  rename_i span rest heq
  obtain rfl := Option.some.inj h
  rw [heq]
  obtain ⟨hspan, hrest⟩ := foldl_union_covers rest span
  refine ⟨fun c hc => ?_, fun lo hi hall => ?_⟩
  · rcases List.mem_cons.1 hc with rfl | hc
    · exact hspan
    · exact hrest c hc
  · exact foldl_union_within rest (hall span List.mem_cons_self) fun c hc =>
      hall c (List.mem_cons_of_mem _ hc)

/-- Without a hull there is neither a head nor a child with tokens. -/
theorem of_hull?_eq_none {f : Frame} (h : f.hull? = none) : f.head? = none ∧ f.spans = [] := by
  unfold hull? at h
  split at h
  · rename_i heq
    obtain ⟨hhead, hspans⟩ := List.append_eq_nil_iff.1 heq
    exact ⟨by simpa using hhead, hspans⟩
  · cases h

end Frame

/-! ### Entering, introducing and leaving -/

namespace Marker

variable {m : Marker}

/-- Entering a node opens a frame at the cursor; a head is taken from there, and the cursor moves
past it. -/
theorem enter_eq {id : NodeId} {rule? : Option Rule} {parentFloor : Nat} {s s' : Pass} {f : Frame}
    (h : m.enter id rule? parentFloor s = (f, s')) :
    f.floor = s.cursor ∧ f.spans = [] ∧ f.waiting = [] ∧ s'.ranges = s.ranges ∧
      s'.entered = id :: s.entered ∧
      (f.head? = none ∧ s'.cursor = s.cursor ∨
        ∃ head, f.head? = some head ∧ head.Within s.cursor m.size ∧ s'.cursor = head.last + 1) := by
  obtain ⟨rfl, rfl⟩ := Prod.mk.inj h
  refine ⟨rfl, rfl, rfl, rfl, rfl, ?_⟩
  rcases hhead : rule?.bind fun r => m.search? r.head s.cursor parentFloor with _ | head
  · exact Or.inl ⟨rfl, rfl⟩
  · obtain ⟨r, -, hr⟩ := Option.bind_eq_some_iff.1 hhead
    exact Or.inr ⟨head, rfl, within_of_search?_eq_some hr, rfl⟩

/-- Claiming an `intro` changes the head and moves the cursor past it, and nothing else. -/
theorem introduce_eq {rule? : Option Rule} {f f' : Frame} {s s' : Pass}
    (h : m.introduce rule? f s = (f', s')) :
    f'.floor = f.floor ∧ f'.spans = f.spans ∧ f'.waiting = f.waiting ∧ s'.ranges = s.ranges ∧
      s'.entered = s.entered ∧
      (f'.head? = f.head? ∧ s'.cursor = s.cursor ∨
        ∃ span, span.Within s.cursor m.size ∧ s'.cursor = span.last + 1 ∧
          (f'.head? = some span ∨ ∃ head, f.head? = some head ∧
            f'.head? = some (head.union span))) := by
  unfold introduce at h
  split_ifs at h
  · obtain ⟨rfl, rfl⟩ := Prod.mk.inj h
    exact ⟨rfl, rfl, rfl, rfl, rfl, Or.inl ⟨rfl, rfl⟩⟩
  split at h
  · obtain ⟨rfl, rfl⟩ := Prod.mk.inj h
    exact ⟨rfl, rfl, rfl, rfl, rfl, Or.inl ⟨rfl, rfl⟩⟩
  · rename_i span hspan
    obtain ⟨rfl, rfl⟩ := Prod.mk.inj h
    obtain ⟨r, -, hr⟩ := Option.bind_eq_some_iff.1 hspan
    refine ⟨rfl, rfl, rfl, rfl, rfl, Or.inr ⟨span, within_of_introAt?_eq_some hr, rfl, ?_⟩⟩
    rcases hhead : f.head? with _ | head
    · exact Or.inl rfl
    · exact Or.inr ⟨head, rfl, rfl⟩

/-- A node that is left either waits with everything below it, or is given the extension of what it
found, and what waited below is put after it. -/
theorem leave_cases {id : NodeId} {kind : String} {literal? : Option Literal}
    {rule? : Option Rule} {parentFloor : Nat} {f : Frame} {s s' : Pass} {claim : Claim}
    (h : m.leave id kind literal? rule? parentFloor f s = .ok (claim, s')) :
    f.hull? = none ∧ claim = .nothing (f.waiting ++ [id]) ∧ s' = s ∨
      ∃ found span, (f.hull? = some found ∨ f.hull? = none ∧ found.Within s.cursor m.size) ∧
        span = m.extend rule? f.floor f.spans found ∧ claim = .tokens span ∧
        s'.cursor = max s.cursor (span.last + 1) ∧ s'.entered = s.entered ∧
        s'.ranges = ((s.give [id] (TokenRange.ofTokens span.first span.last)).give f.waiting
          (TokenRange.emptyAfter span.last)).ranges := by
  unfold leave at h
  rcases hhull : f.hull? with _ | hull <;> rw [hhull] at h
  · rw [Option.elim_none] at h
    rcases hleaf : m.leaf? literal? rule? parentFloor s.cursor with wanted | found? <;>
      rw [hleaf] at h
    · cases h
    rcases found? with _ | found
    · simp only [Except.ok.injEq, Prod.mk.injEq] at h
      obtain ⟨rfl, rfl⟩ := h
      exact Or.inl ⟨rfl, rfl, rfl⟩
    · simp only [Except.ok.injEq, Prod.mk.injEq] at h
      obtain ⟨rfl, rfl⟩ := h
      exact Or.inr ⟨found, _, Or.inr ⟨rfl, within_of_leaf?_eq_ok hleaf⟩, rfl, rfl, rfl, rfl, rfl⟩
  · simp only [Option.elim_some, Except.ok.injEq, Prod.mk.injEq] at h
    obtain ⟨rfl, rfl⟩ := h
    exact Or.inr ⟨hull, _, Or.inl rfl, rfl, rfl, rfl, rfl, rfl⟩

/-- A node is left with an error only for a literal, and has then been entered like all before. -/
theorem leave_eq_error {id : NodeId} {kind : String} {literal? : Option Literal}
    {rule? : Option Rule} {parentFloor : Nat} {f : Frame} {s : Pass} {failure : MarkFailure}
    (h : m.leave id kind literal? rule? parentFloor f s = .error failure) :
    failure.entered = s.entered := by
  unfold leave at h
  split at h
  · obtain rfl := Except.error.inj h
    rfl
  · cases h
  · cases h

/-! ### A visit -/

/-- A node is entered, its children are visited, and it is left. -/
theorem visit_node (parentFloor : Nat) (id : NodeId) (kind : String) (literal? : Option Literal)
    (children : List SyntaxTree) (s : Pass) :
    m.visit parentFloor (.node id kind literal? children) s =
      (m.visitAll (m.policy.rule? kind) children
          (m.enter id (m.policy.rule? kind) parentFloor s).1
          (m.enter id (m.policy.rule? kind) parentFloor s).2).bind fun r =>
        m.leave id kind literal? (m.policy.rule? kind) parentFloor r.1 r.2 := by
  rw [visit]
  rfl

/-- Before a child the `intro` is tried; what the child hands on is adopted before the next one. -/
theorem visitAll_cons (rule? : Option Rule) (child : SyntaxTree) (rest : List SyntaxTree)
    (f : Frame) (s : Pass) :
    m.visitAll rule? (child :: rest) f s =
      (m.visit (m.introduce rule? f s).1.floor child (m.introduce rule? f s).2).bind fun r =>
        m.visitAll rule? rest ((m.introduce rule? f s).1.adopt r.1 r.2).1
          ((m.introduce rule? f s).1.adopt r.1 r.2).2 := by
  rw [visitAll]
  rfl

theorem visitAll_nil (rule? : Option Rule) (f : Frame) (s : Pass) :
    m.visitAll rule? [] f s = .ok (f, s) := by
  rw [visitAll]

/-- Children are visited one part after the other. -/
theorem visitAll_append (rule? : Option Rule) (ts us : List SyntaxTree) (f : Frame) (s : Pass) :
    m.visitAll rule? (ts ++ us) f s =
      (m.visitAll rule? ts f s).bind fun r => m.visitAll rule? us r.1 r.2 := by
  induction ts generalizing f s with
  | nil =>
    rw [List.nil_append, visitAll_nil]
    rfl
  | cons t ts ih =>
    rw [List.cons_append, visitAll_cons, visitAll_cons]
    rcases m.visit (m.introduce rule? f s).1.floor t (m.introduce rule? f s).2 with e | ⟨claim, s₁⟩
    · rfl
    · exact ih _ _

/-- Marking a tree is the visit of its root from the first token; what waits at the end is put before
the token at the cursor. -/
theorem markTree_cases {tree : SyntaxTree} {s : Pass} (h : m.markTree tree = .ok s) :
    0 < m.size ∧ ∃ claim s₁, m.visit 0 tree Pass.initial = .ok (claim, s₁) ∧
      ((∃ span, claim = .tokens span) ∧ s = s₁ ∨ ∃ waiting, claim = .nothing waiting ∧
        s = s₁.give waiting (TokenRange.emptyBefore (min s₁.cursor (m.size - 1)))) := by
  unfold markTree at h
  split_ifs at h with hsize
  obtain ⟨⟨claim, s₁⟩, hvisit, h⟩ := bind_eq_ok h
  refine ⟨Nat.pos_of_ne_zero hsize, claim, s₁, hvisit, ?_⟩
  cases claim with
  | tokens span => exact Or.inl ⟨⟨span, rfl⟩, (Except.ok.inj h).symm⟩
  | nothing waiting => exact Or.inr ⟨waiting, rfl, (Except.ok.inj h).symm⟩

/-- Marking fails before it enters a node, or where the visit fails. -/
theorem markTree_eq_error {tree : SyntaxTree} {failure : MarkFailure}
    (h : m.markTree tree = .error failure) :
    failure.entered = [] ∨ m.visit 0 tree Pass.initial = .error failure := by
  unfold markTree at h
  split_ifs at h
  · obtain rfl := Except.error.inj h
    exact Or.inl rfl
  · rcases bind_eq_error h with hvisit | ⟨⟨claim, s₁⟩, -, h⟩
    · exact Or.inr hvisit
    · cases claim <;> cases h

end Marker

/-- The table of a marked tree holds the ranges that marking gave. -/
theorem exists_of_mark_eq_ok {source : Source} {policy : PolicyTable} {g : NodeTable}
    {root : NodeId} {ranges : RangeTable} (h : mark source policy g root = .ok ranges) :
    ∃ s, (Marker.new source policy).markTree (g.unfolding root) = .ok s ∧ s.ranges = ranges := by
  unfold mark at h
  split at h
  · rename_i s hs
    exact ⟨s, hs, Except.ok.inj h⟩
  · cases h

end SourceSpans
