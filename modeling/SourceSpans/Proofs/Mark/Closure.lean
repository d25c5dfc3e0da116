import SourceSpans.Proofs.Mark.Bounds

/-!
# Balancing brackets

A span is closed if it holds, with every bracket in it that no child holds, the partner of the bracket,
unless the partner stands before the floor (`Marker.Closed`). Balancing finds the least closed span around
a span (`leastClosed_balance`).

* **Children** (`not_holds_of_covering?_eq_none`): of spans in order only one can hold a token, and it is
  the first one that ends at or after the token.
* **Gaps** (`Marker.Scanned`): a bracket of the span whose partner is not in the span stands in a gap, as
  long as there are gaps. One step passes over tokens of a gap that ask for nothing (`Scanned.pass`), or
  it makes the span wider, by what becomes another gap (`Scanned.widen`). A closed span around the narrow
  span holds the bracket, so it holds the partner, and it is a span around the wide one.
* **Going on** (`balance_some_eq`): there is only one least closed span. So a call that passes over what an
  earlier call has scanned ends where a call does that scans all.
-/

namespace SourceSpans

namespace Span

/-- The span holds the token. -/
def Holds (s : Span) (i : Nat) : Prop := s.first ≤ i ∧ i ≤ s.last

variable {a b : Span}

theorem Covers.holds (h : a.Covers b) {i : Nat} (hi : b.Holds i) : a.Holds i :=
  ⟨h.1.trans hi.1, hi.2.trans h.2⟩

theorem Covers.antisymm (hab : a.Covers b) (hba : b.Covers a) : a = b := by
  obtain ⟨first, last⟩ := a
  obtain ⟨first', last'⟩ := b
  obtain ⟨hfirst, hlast⟩ := hab
  obtain ⟨hfirst', hlast'⟩ := hba
  rw [Span.mk.injEq]
  exact ⟨hfirst.antisymm hfirst', hlast'.antisymm hlast⟩

/-- Spans one after the other, none of which begins before the one before it has ended. -/
def InOrder (spans : List Span) : Prop := spans.Pairwise fun c d => c.last < d.first

end Span

namespace Marker

variable {m : Marker} {floor i p : Nat} {children parts : List Span} {s span outer : Span}
  {gaps : List (Nat × Nat)}

/-! ### Children that hold a token -/

theorem of_covering?_eq_some {spans : List Span} (h : covering? spans i = some s) :
    s ∈ spans ∧ s.Holds i := by
  obtain ⟨hfind, hfirst⟩ := Option.filter_eq_some_iff.1 h
  exact ⟨List.mem_of_find?_eq_some hfind, of_decide_eq_true hfirst, le_last_of_covering?_eq_some h⟩

theorem not_holds_of_covering?_eq_none {spans : List Span} (horder : Span.InOrder spans)
    (h : covering? spans i = none) : ∀ c ∈ spans, ¬ c.Holds i := by
  induction spans with
  | nil => exact nofun
  | cons d spans ih =>
    obtain ⟨hd, hspans⟩ := List.pairwise_cons.1 horder
    unfold covering? at h
    by_cases hlast : i ≤ d.last
    · rw [List.find?_cons_of_pos (by simpa using hlast), Option.filter_eq_none_iff] at h
      have hfirst : ¬ d.first ≤ i := by simpa using h d rfl
      -- the spans behind `d` begin behind the end of `d`
      intro c hc hholds
      rcases List.mem_cons.1 hc with rfl | hc
      · exact hfirst hholds.1
      · exact absurd (hd c hc) (hholds.1.trans hlast).not_gt
    · rw [List.find?_cons_of_neg (by simpa using hlast)] at h
      intro c hc hholds
      rcases List.mem_cons.1 hc with rfl | hc
      · exact hlast hholds.2
      · exact ih hspans h c hc hholds

/-! ### Closed spans -/

variable (m floor children)

/-- A span holds the partner of each bracket in it, except for brackets that a child holds and for partners
before `floor`. -/
def Closed (s : Span) : Prop :=
  ∀ i p, s.Holds i → (∀ c ∈ children, ¬ c.Holds i) → m.partner? i = some p → floor ≤ p → s.Holds p

/-- The least closed span that covers several spans. -/
structure LeastClosed (parts : List Span) (s : Span) : Prop where
  covers : ∀ part ∈ parts, s.Covers part
  closed : m.Closed floor children s
  least : ∀ outer, (∀ part ∈ parts, Span.Covers outer part) → m.Closed floor children outer →
    outer.Covers s

variable {m floor children}

namespace LeastClosed

theorem unique (h : m.LeastClosed floor children parts s) {t : Span}
    (ht : m.LeastClosed floor children parts t) : s = t :=
  (ht.least s h.covers h.closed).antisymm (h.least t ht.covers ht.closed)

/-- Parts may be replaced by others that the same closed spans cover. -/
theorem of_parts {parts' : List Span} (h : m.LeastClosed floor children parts' s)
    (hcovers : ∀ part ∈ parts, s.Covers part)
    (hforced : ∀ outer, (∀ part ∈ parts, Span.Covers outer part) → m.Closed floor children outer →
      ∀ part ∈ parts', outer.Covers part) : m.LeastClosed floor children parts s :=
  ⟨hcovers, h.closed, fun outer houter hclosed =>
    h.least outer (hforced outer houter hclosed) hclosed⟩

/-- A span that is wider only by what a closed span around it has to hold. -/
theorem of_wider {wide : Span} (h : m.LeastClosed floor children [wide] s) (hwide : wide.Covers span)
    (hforced : ∀ outer : Span, outer.Covers span → m.Closed floor children outer →
      outer.Covers wide) : m.LeastClosed floor children [span] s := by
  refine h.of_parts ?_ ?_
  · rw [List.forall_mem_singleton]
    exact (h.covers wide (List.mem_singleton_self wide)).trans hwide
  · intro outer houter hclosed
    rw [List.forall_mem_singleton] at houter ⊢
    exact hforced outer houter hclosed

end LeastClosed

/-! ### Gaps -/

/-- One of the gaps holds the token. -/
def InGaps (gaps : List (Nat × Nat)) (i : Nat) : Prop := ∃ gap ∈ gaps, gap.1 ≤ i ∧ i < gap.2

@[simp] theorem inGaps_nil : ¬ InGaps [] i := nofun

@[simp] theorem inGaps_cons {start stop : Nat} :
    InGaps ((start, stop) :: gaps) i ↔ start ≤ i ∧ i < stop ∨ InGaps gaps i := by
  simp [InGaps]

variable (m floor children)

/-- The gaps lie in the span. A bracket of the span that no child holds stands in a gap if its partner
does not stand in the span, nor before `floor`. -/
structure Scanned (s : Span) (gaps : List (Nat × Nat)) : Prop where
  floor_le : floor ≤ s.first
  holds : ∀ i, InGaps gaps i → s.Holds i
  inGaps : ∀ i p, s.Holds i → (∀ c ∈ children, ¬ c.Holds i) → m.partner? i = some p → floor ≤ p →
    ¬ s.Holds p → InGaps gaps i

variable {m floor children}

namespace Scanned

variable {stop : Nat}

theorem holds_start (h : m.Scanned floor children s ((i, stop) :: gaps)) (hlt : i < stop) :
    s.Holds i :=
  h.holds i (inGaps_cons.2 (Or.inl ⟨le_rfl, hlt⟩))

/-- The tokens of a gap before `k` are passed over if they ask for nothing. -/
theorem pass (h : m.Scanned floor children s ((i, stop) :: gaps)) {k : Nat} (hk : i ≤ k)
    (hnothing : ∀ j q, i ≤ j → j < k → (∀ c ∈ children, ¬ c.Holds j) → m.partner? j = some q →
      floor ≤ q → s.Holds q) : m.Scanned floor children s ((k, stop) :: gaps) := by
  refine ⟨h.floor_le, fun j hj => h.holds j ?_, fun j q hj hfree hq hfloor hout => ?_⟩
  · rw [inGaps_cons] at hj ⊢
    exact hj.imp_left fun hj => ⟨hk.trans hj.1, hj.2⟩
  · have hgaps := h.inGaps j q hj hfree hq hfloor hout
    rw [inGaps_cons] at hgaps ⊢
    refine hgaps.imp_left fun hgap => ⟨?_, hgap.2⟩
    by_contra hlt
    exact hout (hnothing j q hgap.1 (Nat.not_le.1 hlt) hfree hq hfloor)

/-- A gap without tokens is left out. -/
theorem drop (h : m.Scanned floor children s ((i, stop) :: gaps)) (hle : stop ≤ i) :
    m.Scanned floor children s gaps := by
  have hgaps : ∀ j, InGaps ((i, stop) :: gaps) j ↔ InGaps gaps j := by
    intro j
    rw [inGaps_cons, or_iff_right]
    omega
  refine ⟨h.floor_le, fun j hj => h.holds j ((hgaps j).2 hj), fun j q hj hfree hq hfloor hout => ?_⟩
  exact (hgaps j).1 (h.inGaps j q hj hfree hq hfloor hout)

/-- The span takes in the partner of a bracket, and what it becomes wider by is another gap. -/
theorem widen (h : m.Scanned floor children s ((i, stop) :: gaps)) (hp : m.partner? i = some p)
    {wide : Span} {a b : Nat} (hfloor : floor ≤ wide.first) (hpartner : wide.Holds p)
    (hwide : ∀ j, wide.Holds j ↔ s.Holds j ∨ a ≤ j ∧ j < b) :
    m.Scanned floor children wide ((i + 1, stop) :: (a, b) :: gaps) := by
  refine ⟨hfloor, fun j hj => ?_, fun j q hj hfree hq hq' hout => ?_⟩
  · rw [inGaps_cons, inGaps_cons] at hj
    rw [hwide]
    rcases hj with hj | hj | hj
    · exact Or.inl (h.holds j (inGaps_cons.2 (Or.inl ⟨(Nat.le_succ i).trans hj.1, hj.2⟩)))
    · exact Or.inr hj
    · exact Or.inl (h.holds j (inGaps_cons.2 (Or.inr hj)))
  · rw [inGaps_cons, inGaps_cons]
    rcases (hwide j).1 hj with hs | hgap
    · have hout' : ¬ s.Holds q := fun hs => hout ((hwide q).2 (Or.inl hs))
      rcases inGaps_cons.1 (h.inGaps j q hs hfree hq hq' hout') with hgap | hgap
      · rcases hgap.1.eq_or_lt with rfl | hlt
        · obtain rfl := Option.some.inj (hp.symm.trans hq)
          exact absurd hpartner hout
        · exact Or.inl ⟨hlt, hgap.2⟩
      · exact Or.inr (Or.inr hgap)
    · exact Or.inr (Or.inl hgap)

/-- A span of which nothing has been looked at. -/
theorem of_gapsAround_none (hfloor : floor ≤ s.first) :
    m.Scanned floor children s (gapsAround none s) := by
  have hgaps : ∀ j, InGaps (gapsAround none s) j ↔ s.Holds j := by
    intro j
    rw [gapsAround, inGaps_cons, or_iff_left inGaps_nil, Nat.lt_succ_iff, Span.Holds]
  exact ⟨hfloor, fun j hj => (hgaps j).1 hj, fun j q hj _ _ _ _ => (hgaps j).2 hj⟩

/-- A span of which a closed part has been looked at. -/
theorem of_gapsAround_some (hfloor : floor ≤ outer.first) (hcovers : outer.Covers s)
    (hle : s.first ≤ s.last) (hclosed : m.Closed floor children s) :
    m.Scanned floor children outer (gapsAround (some s) outer) := by
  have hgaps : ∀ j, InGaps (gapsAround (some s) outer) j ↔ outer.Holds j ∧ ¬ s.Holds j := by
    intro j
    obtain ⟨hfirst, hlast⟩ := hcovers
    simp only [gapsAround, inGaps_cons, inGaps_nil, or_false, Span.Holds]
    omega
  refine ⟨hfloor, fun j hj => ((hgaps j).1 hj).1, fun j q hj hfree hq hq' hout => ?_⟩
  rw [hgaps]
  exact ⟨hj, fun hs => hout (hcovers.holds (hclosed j q hs hfree hq hq'))⟩

end Scanned

/-! ### Balance -/

/-- Working off the gaps leads to the least closed span. -/
theorem leastClosed_balanceFrom (horder : Span.InOrder children)
    (h : m.Scanned floor children span gaps) :
    m.LeastClosed floor children [span] (m.balanceFrom floor children span gaps) := by
  fun_induction balanceFrom m floor children span gaps with
  | case1 span =>
    refine ⟨by simpa using Span.Covers.refl span, fun i p hi hfree hp hfloor => ?_, ?_⟩
    · by_contra hout
      exact inGaps_nil (h.inGaps i p hi hfree hp hfloor hout)
    · exact fun outer houter _ => houter span (List.mem_singleton_self span)
  | case2 span i stop gaps hle ih => exact ih (h.drop hle)
  | case3 span i stop gaps hlt c hc ih =>
    obtain ⟨hmem, hfirst, hlast⟩ := of_covering?_eq_some hc
    refine ih (h.pass (Nat.le_succ_of_le hlast) fun j q hj hlt hfree _ _ => ?_)
    exact absurd ⟨hfirst.trans hj, Nat.le_of_lt_succ hlt⟩ (hfree c hmem)
  | case4 span i stop gaps hlt hc hp ih =>
    refine ih (h.pass (Nat.le_succ i) fun j q hj hlt _ hq _ => ?_)
    obtain rfl : i = j := hj.antisymm (Nat.le_of_lt_succ hlt)
    cases hp.symm.trans hq
  | case5 span i stop gaps hlt hc p hp hlast ih =>
    have hi := h.holds_start (Nat.not_le.1 hlt)
    have hfloor := h.floor_le
    have hfree := not_holds_of_covering?_eq_none horder hc
    have hne : span.first ≤ span.last := hi.1.trans hi.2
    have hwide : ∀ j, (⟨span.first, p⟩ : Span).Holds j ↔
        span.Holds j ∨ span.last + 1 ≤ j ∧ j < p + 1 := by
      intro j
      simp only [Span.Holds]
      omega
    refine (ih (h.widen hp hfloor ⟨hne.trans hlast.le, le_rfl⟩ hwide)).of_wider
      ⟨le_rfl, hlast.le⟩ fun outer houter hclosed => ?_
    have hp' := hclosed i p (houter.holds hi) hfree hp (hfloor.trans (hne.trans hlast.le))
    exact ⟨houter.1, hp'.2⟩
  | case6 span i stop gaps hlt hc p hp hlast hfirst ih =>
    have hi := h.holds_start (Nat.not_le.1 hlt)
    have hfree := not_holds_of_covering?_eq_none horder hc
    have hne : span.first ≤ span.last := hi.1.trans hi.2
    have hwide : ∀ j, (⟨p, span.last⟩ : Span).Holds j ↔
        span.Holds j ∨ p ≤ j ∧ j < span.first := by
      intro j
      simp only [Span.Holds]
      omega
    refine (ih (h.widen hp hfirst.2 ⟨le_rfl, hfirst.1.le.trans hne⟩ hwide)).of_wider
      ⟨hfirst.1.le, le_rfl⟩ fun outer houter hclosed => ?_
    have hp' := hclosed i p (houter.holds hi) hfree hp hfirst.2
    exact ⟨hp'.1, houter.2⟩
  | case7 span i stop gaps hlt hc p hp hlast hfirst ih =>
    refine ih (h.pass (Nat.le_succ i) fun j q hj hlt _ hq hfloor => ?_)
    obtain rfl : i = j := hj.antisymm (Nat.le_of_lt_succ hlt)
    obtain rfl := Option.some.inj (hp.symm.trans hq)
    exact ⟨Nat.le_of_not_lt fun hlt => hfirst ⟨hlt, hfloor⟩, Nat.le_of_not_lt hlast⟩

/-- **Balancing finds the least closed span.** -/
theorem leastClosed_balance (horder : Span.InOrder children) (hfloor : floor ≤ span.first) :
    m.LeastClosed floor children [span] (m.balance floor children none span) :=
  leastClosed_balanceFrom horder (.of_gapsAround_none hfloor)

/-- A second call, around what the first call has found, finds what a fresh call does. -/
theorem balance_some_eq (horder : Span.InOrder children) (hspan : span.Within floor m.size)
    (hfloor : floor ≤ outer.first)
    (hcovers : outer.Covers (m.balance floor children none span)) :
    m.balance floor children (some (m.balance floor children none span)) outer =
      m.balance floor children none outer := by
  have hinner : m.Extends floor span (m.balance floor children none span) := extends_balance hspan
  have hle := hinner.within.first_le_last
  have hclosed := (leastClosed_balance (m := m) horder hspan.lo_le).closed
  have hscanned := Scanned.of_gapsAround_some hfloor hcovers hle hclosed
  exact (leastClosed_balanceFrom horder hscanned).unique (leastClosed_balance horder hfloor)

/-- Extending a span for a rule is balancing twice, both times as if nothing had been scanned. -/
theorem extend_some_eq (r : Rule) (horder : Span.InOrder children)
    (hspan : span.Within floor m.size) :
    m.extend (some r) floor children span =
      m.balance floor children none (m.wrapped r.wrap floor
        (m.withTrail r floor (m.withLead r floor (m.balance floor children none span)))) := by
  have hinner : m.Extends floor span (m.balance floor children none span) := extends_balance hspan
  have hlead := extends_withLead r hinner.within
  have htrail := hlead.trans (extends_withTrail r hlead.within)
  have hwrapped := htrail.trans (extends_wrapped r.wrap htrail.within)
  exact balance_some_eq horder hspan hwrapped.within.lo_le hwrapped.covers

end Marker

end SourceSpans
