import SourceSpans.Mark.Extent
import SourceSpans.Proofs.Condensed.Search

/-!
# Extents without comments

A span reaches as far as its span in the condensed source does (`extend_nthSpan`).

The brackets in a span are balanced by working off gaps, and a gap may begin or end at a comment. Such an
index has no partner, and a child covers it only if it covers the next coding token as well
(`covering?_eq_some`). So a gap stands for the ranks of its two ends, and each step of the work either is
the step on these ranks or changes none of them (`balanceFrom_nthSpan`).
-/

namespace SourceSpans

/-- The ranks of the two ends of a gap. -/
def Source.rankGap (s : Source) (gap : Nat × Nat) : Nat × Nat := (s.rank gap.1, s.rank gap.2)

@[simp] theorem Source.rankGap_mk (s : Source) (i stop : Nat) :
    s.rankGap (i, stop) = (s.rank i, s.rank stop) := rfl

namespace Marker

/-! ### Steps of balance -/

section steps

variable {m : Marker} {floor i stop p : Nat} {children : List Span} {span x : Span}
  {gaps : List (Nat × Nat)}

theorem balanceFrom_of_le (h : stop ≤ i) : m.balanceFrom floor children span ((i, stop) :: gaps) =
    m.balanceFrom floor children span gaps := by
  rw [balanceFrom, if_pos h]

theorem balanceFrom_of_covering?_eq_some (h : i < stop) (hx : covering? children i = some x) :
    m.balanceFrom floor children span ((i, stop) :: gaps) =
      m.balanceFrom floor children span ((x.last + 1, stop) :: gaps) := by
  rw [balanceFrom, if_neg h.not_ge]
  split
  · rename_i hc
    obtain rfl := Option.some.inj (hx.symm.trans hc)
    rfl
  · rename_i hc
    cases hx.symm.trans hc

theorem balanceFrom_of_partner?_eq_none (h : i < stop) (hx : covering? children i = none)
    (hp : m.partner? i = none) : m.balanceFrom floor children span ((i, stop) :: gaps) =
      m.balanceFrom floor children span ((i + 1, stop) :: gaps) := by
  rw [balanceFrom, if_neg h.not_ge]
  split
  · rename_i hc
    cases hx.symm.trans hc
  · split
    · rfl
    · rename_i hp'
      cases hp.symm.trans hp'

/-- A partner behind the span becomes its end, one before the span its start, unless it is before
`floor`. -/
theorem balanceFrom_of_partner?_eq_some (h : i < stop) (hx : covering? children i = none)
    (hp : m.partner? i = some p) : m.balanceFrom floor children span ((i, stop) :: gaps) =
      if span.last < p then
        m.balanceFrom floor children ⟨span.first, p⟩
          ((i + 1, stop) :: (span.last + 1, p + 1) :: gaps)
      else if p < span.first ∧ floor ≤ p then
        m.balanceFrom floor children ⟨p, span.last⟩ ((i + 1, stop) :: (p, span.first) :: gaps)
      else m.balanceFrom floor children span ((i + 1, stop) :: gaps) := by
  rw [balanceFrom, if_neg h.not_ge]
  split
  · rename_i hc
    cases hx.symm.trans hc
  · split
    · rename_i hp'
      cases hp.symm.trans hp'
    · rename_i hp'
      obtain rfl := Option.some.inj (hp.symm.trans hp')
      rfl

end steps

/-! ### Looking through parentheses -/

theorem wrapAll_eq (m : Marker) (floor : Nat) (span : Span) :
    m.wrapAll floor span = (m.parenAround? floor span).elim span (m.wrapAll floor) := by
  rw [wrapAll]
  split <;> simp [*]

theorem reaching?_eq (m : Marker) (attempt : Span → Option Span) (floor : Nat) (reach : Bool)
    (span : Span) :
    m.reaching? attempt floor reach span = (attempt span).or
      (if reach then (m.parenAround? floor span).bind (m.reaching? attempt floor reach)
      else none) := by
  rw [reaching?]
  split
  · simp [*]
  · split_ifs
    · split <;> simp [*]
    · simp [*]

/-! ### Children that cover a token -/

section covering

variable {s : Source} {spans : List Span} {i : Nat} {x : Span}

/-- A child that ends at or after an index ends at or after its rank. -/
theorem find?_le_last_map_nthSpan (s : Source) (spans : List Span) (i : Nat) :
    ((spans.map s.nthSpan).find? fun x => i ≤ x.last) =
      (spans.find? fun x => s.rank i ≤ x.last).map s.nthSpan := by
  rw [List.find?_map]
  refine congrArg (Option.map _) (congrArg (spans.find? ·) (funext fun x => ?_))
  exact decide_eq_decide.2 Source.rank_le_iff.symm

/-- A child that covers an index covers its rank. -/
theorem covering?_eq_some (h : covering? (spans.map s.nthSpan) i = some x) :
    ∃ y, x = s.nthSpan y ∧ covering? spans (s.rank i) = some y := by
  unfold covering? at h ⊢
  rw [find?_le_last_map_nthSpan] at h
  obtain ⟨hfind, hfirst⟩ := Option.filter_eq_some_iff.1 h
  obtain ⟨y, hy, rfl⟩ := Option.map_eq_some_iff.1 hfind
  refine ⟨y, rfl, Option.filter_eq_some_iff.2 ⟨hy, ?_⟩⟩
  have hrank := s.monotone_rank (of_decide_eq_true hfirst)
  rw [Source.first_nthSpan, Source.rank_nth] at hrank
  exact decide_eq_true hrank

theorem covering?_nth (s : Source) (spans : List Span) (k : Nat) :
    covering? (spans.map s.nthSpan) (s.nth k) = (covering? spans k).map s.nthSpan := by
  unfold covering?
  rw [find?_le_last_map_nthSpan, Source.rank_nth]
  exact filter_map_eq _ fun x => decide_eq_decide.2 Source.nth_le_nth_iff

end covering

namespace Condenses

variable {m c : Marker} (h : c.Condenses m)

include h

/-- A bracket in a gap that no child covers, and its partner, are such brackets by their ranks. -/
theorem exists_of_partner?_eq_some {children : List Span} {i stop p : Nat} (hlt : ¬ stop ≤ i)
    (hx : covering? (children.map m.source.nthSpan) i = none) (hp : m.partner? i = some p) :
    ∃ k q, m.source.nth k = i ∧ m.source.nth q = p ∧ k < m.source.rank stop ∧
      covering? children k = none ∧ c.partner? k = some q := by
  rcases hpassed : m.source.isPassed i with _ | _
  · obtain ⟨k, rfl⟩ : ∃ k, m.source.nth k = i := ⟨_, Source.nth_rank hpassed⟩
    rw [h.partner?_nth] at hp
    obtain ⟨q, hq, hqp⟩ := Option.map_eq_some_iff.1 hp
    rw [covering?_nth, Option.map_eq_none_iff] at hx
    exact ⟨k, q, rfl, hqp, Source.lt_rank_iff.2 (Nat.not_le.1 hlt), hx, hq⟩
  · rw [h.partner?_of_isPassed i hpassed] at hp
    cases hp

/-- **A span is balanced by the ranks of its tokens and of its gaps.** -/
theorem balanceFrom_nthSpan (floor : Nat) (children : List Span) (span : Span)
    (gaps : List (Nat × Nat)) :
    m.balanceFrom floor (children.map m.source.nthSpan) (m.source.nthSpan span) gaps =
      m.source.nthSpan (c.balanceFrom (m.source.rank floor) children span
        (gaps.map m.source.rankGap)) := by
  generalize hchildren : children.map m.source.nthSpan = outerChildren
  generalize houter : m.source.nthSpan span = outer
  fun_induction balanceFrom m floor outerChildren outer gaps generalizing span with
  | case1 outer =>
    rw [List.map_nil, balanceFrom, houter]
  | case2 outer i stop gaps hle ih =>
    rw [ih span houter, List.map_cons, Source.rankGap_mk,
      balanceFrom_of_le (m.source.monotone_rank hle)]
  | case3 outer i stop gaps hlt x hx ih =>
    -- a comment may be covered, and then what is left of the gap is that behind the child
    subst hchildren
    obtain ⟨y, rfl, hy⟩ := covering?_eq_some hx
    rw [ih span houter, List.map_cons, List.map_cons, Source.rankGap_mk, Source.rankGap_mk,
      Source.last_nthSpan, Source.rank_nth_add_one]
    have hlast := le_last_of_covering?_eq_some hy
    rcases Nat.lt_or_ge (m.source.rank i) (m.source.rank stop) with hrank | hrank
    · rw [balanceFrom_of_covering?_eq_some hrank hy]
    · rw [balanceFrom_of_le hrank, balanceFrom_of_le (by omega)]
  | case4 outer i stop gaps hlt hx hp ih =>
    subst hchildren
    rw [ih span houter, List.map_cons, List.map_cons, Source.rankGap_mk, Source.rankGap_mk]
    rcases hpassed : m.source.isPassed i with _ | _
    · obtain ⟨k, rfl⟩ : ∃ k, m.source.nth k = i := ⟨_, Source.nth_rank hpassed⟩
      rw [covering?_nth, Option.map_eq_none_iff] at hx
      rw [h.partner?_nth, Option.map_eq_none_iff] at hp
      have hrank := Source.lt_rank_iff.2 (Nat.not_le.1 hlt)
      rw [Source.rank_nth, Source.rank_nth_add_one, balanceFrom_of_partner?_eq_none hrank hx hp]
    · rw [Source.rank_add_one_of_isPassed hpassed]
  | case5 outer i stop gaps hlt hx p hp hlast ih =>
    subst hchildren houter
    obtain ⟨k, q, rfl, rfl, hk, hx', hq⟩ := h.exists_of_partner?_eq_some hlt hx hp
    have hlast' : span.last < q := Source.nth_lt_nth_iff.1 hlast
    rw [ih ⟨span.first, q⟩ rfl]
    simp only [List.map_cons, Source.rankGap_mk, Source.last_nthSpan, Source.rank_nth,
      Source.rank_nth_add_one]
    rw [balanceFrom_of_partner?_eq_some hk hx' hq, if_pos hlast']
  | case6 outer i stop gaps hlt hx p hp hlast hfirst ih =>
    subst hchildren houter
    obtain ⟨k, q, rfl, rfl, hk, hx', hq⟩ := h.exists_of_partner?_eq_some hlt hx hp
    have hlast' : ¬ span.last < q := fun hlt => hlast (Source.nth_lt_nth_iff.2 hlt)
    have hfirst' : q < span.first ∧ m.source.rank floor ≤ q :=
      ⟨Source.nth_lt_nth_iff.1 hfirst.1, Source.rank_le_iff.2 hfirst.2⟩
    rw [ih ⟨q, span.last⟩ rfl]
    simp only [List.map_cons, Source.rankGap_mk, Source.first_nthSpan, Source.rank_nth,
      Source.rank_nth_add_one]
    rw [balanceFrom_of_partner?_eq_some hk hx' hq, if_neg hlast', if_pos hfirst']
  | case7 outer i stop gaps hlt hx p hp hlast hfirst ih =>
    subst hchildren houter
    obtain ⟨k, q, rfl, rfl, hk, hx', hq⟩ := h.exists_of_partner?_eq_some hlt hx hp
    have hlast' : ¬ span.last < q := fun hlt => hlast (Source.nth_lt_nth_iff.2 hlt)
    have hfirst' : ¬ (q < span.first ∧ m.source.rank floor ≤ q) := fun hq =>
      hfirst ⟨Source.nth_lt_nth_iff.2 hq.1, Source.rank_le_iff.1 hq.2⟩
    rw [ih span rfl]
    simp only [List.map_cons, Source.rankGap_mk, Source.rank_nth, Source.rank_nth_add_one]
    rw [balanceFrom_of_partner?_eq_some hk hx' hq, if_neg hlast', if_neg hfirst']

theorem balance_nthSpan (floor : Nat) (children : List Span) (scanned? : Option Span)
    (span : Span) :
    m.balance floor (children.map m.source.nthSpan) (scanned?.map m.source.nthSpan)
        (m.source.nthSpan span) =
      m.source.nthSpan (c.balance (m.source.rank floor) children scanned? span) := by
  have hgaps : (gapsAround (scanned?.map m.source.nthSpan) (m.source.nthSpan span)).map
      m.source.rankGap = gapsAround scanned? span := by
    rcases scanned? with _ | s <;> simp [gapsAround]
  unfold balance
  rw [h.balanceFrom_nthSpan, hgaps]

/-! ### Parentheses -/

theorem parenAround?_nthSpan (floor : Nat) (span : Span) :
    m.parenAround? floor (m.source.nthSpan span) =
      (c.parenAround? (m.source.rank floor) span).map m.source.nthSpan := by
  unfold parenAround?
  rw [Source.first_nthSpan, Source.last_nthSpan, h.codingBefore?_eq, Source.rank_nth,
    h.codingAfter?_nth]
  refine bind_map_eq _ fun first => bind_map_eq _ fun last => ?_
  have hpartner : m.partner? (m.source.nth first) = some (m.source.nth last) ↔
      c.partner? first = some last := by
    rw [h.partner?_nth, ← Option.map_some]
    exact (Option.map_injective m.source.strictMono_nth.injective).eq_iff
  rw [h.holdsAt_nth (Token.isLexical_fits _ _)]
  simp only [hpartner]
  split_ifs <;> rfl

theorem wrapAll_nthSpan (floor : Nat) (span : Span) :
    m.wrapAll floor (m.source.nthSpan span) =
      m.source.nthSpan (c.wrapAll (m.source.rank floor) span) := by
  fun_induction wrapAll c (m.source.rank floor) span with
  | case1 span hnone =>
    rw [wrapAll_eq, h.parenAround?_nthSpan, hnone]
    rfl
  | case2 span outer houter ih =>
    rw [wrapAll_eq, h.parenAround?_nthSpan, houter]
    exact ih

theorem wrapped_nthSpan (wrap : Wrap) (floor : Nat) (span : Span) :
    m.wrapped wrap floor (m.source.nthSpan span) =
      m.source.nthSpan (c.wrapped wrap (m.source.rank floor) span) := by
  cases wrap with
  | none => rfl
  | once =>
    unfold wrapped
    dsimp only
    rw [h.parenAround?_nthSpan, Option.getD_map]
  | all => exact h.wrapAll_nthSpan floor span

/-- What is looked for through parentheses is found by ranks if each attempt goes by ranks. -/
theorem reaching?_nthSpan {attempt attempt' : Span → Option Span}
    (hattempt : ∀ span, attempt (m.source.nthSpan span) = (attempt' span).map m.source.nthSpan)
    (floor : Nat) (reach : Bool) (span : Span) :
    m.reaching? attempt floor reach (m.source.nthSpan span) =
      (c.reaching? attempt' (m.source.rank floor) reach span).map m.source.nthSpan := by
  fun_induction reaching? c attempt' (m.source.rank floor) reach span with
  | case1 span found hfound =>
    rw [reaching?_eq, hattempt, hfound]
    rfl
  | case2 span hnone hreach hparen =>
    rw [reaching?_eq, hattempt, hnone, if_pos hreach, h.parenAround?_nthSpan, hparen]
    rfl
  | case3 span hnone hreach outer houter ih =>
    rw [reaching?_eq, hattempt, hnone, if_pos hreach, h.parenAround?_nthSpan, houter]
    exact ih
  | case4 span hnone hreach =>
    rw [reaching?_eq, hattempt, hnone, if_neg hreach]
    rfl

/-! ### The whole extension -/

theorem leadOf?_nthSpan (r : Rule) (floor : Nat) (span : Span) :
    m.leadOf? r floor (m.source.nthSpan span) =
      (c.leadOf? r (m.source.rank floor) span).map m.source.nthSpan := by
  have hlead : (fun ps => m.leadAt? ps (m.source.nth span.first) floor) =
      Option.map m.source.nth ∘ fun ps => c.leadAt? ps span.first (m.source.rank floor) :=
    funext fun ps => h.leadAt?_nth ps span.first floor
  unfold leadOf?
  rw [Source.first_nthSpan, hlead, ← List.map_findSome?, Option.map_map, Option.map_map]
  rfl

theorem trailOf?_nthSpan (r : Rule) (span : Span) :
    m.trailOf? r (m.source.nthSpan span) = (c.trailOf? r span).map m.source.nthSpan := by
  have htrail : (fun ps => m.trailAt? ps (m.source.nthSpan span)) =
      Option.map m.source.nth ∘ fun ps => c.trailAt? ps span :=
    funext fun ps => h.trailAt?_nthSpan ps span
  unfold trailOf?
  rw [htrail, ← List.map_findSome?, Option.map_map, Option.map_map]
  rfl

theorem withLead_nthSpan (r : Rule) (floor : Nat) (span : Span) :
    m.withLead r floor (m.source.nthSpan span) =
      m.source.nthSpan (c.withLead r (m.source.rank floor) span) := by
  unfold withLead
  rw [h.reaching?_nthSpan (h.leadOf?_nthSpan r floor), Option.getD_map]
  split_ifs <;> rfl

theorem withTrail_nthSpan (r : Rule) (floor : Nat) (span : Span) :
    m.withTrail r floor (m.source.nthSpan span) =
      m.source.nthSpan (c.withTrail r (m.source.rank floor) span) := by
  unfold withTrail
  rw [h.reaching?_nthSpan (h.trailOf?_nthSpan r), Option.getD_map]
  split_ifs <;> rfl

/-- **A span is extended by the ranks of its tokens.** -/
theorem extend_nthSpan (rule? : Option Rule) (floor : Nat) (children : List Span) (span : Span) :
    m.extend rule? floor (children.map m.source.nthSpan) (m.source.nthSpan span) =
      m.source.nthSpan (c.extend rule? (m.source.rank floor) children span) := by
  have hinner := h.balance_nthSpan floor children none span
  rw [Option.map_none] at hinner
  unfold extend
  rcases rule? with _ | r
  · exact hinner
  · dsimp only
    rw [hinner, h.withLead_nthSpan, h.withTrail_nthSpan, h.wrapped_nthSpan, ← Option.map_some,
      h.balance_nthSpan]

end Condenses

end Marker

end SourceSpans
