import Mathlib.Logic.Relation
import SourceSpans.Proofs.Mark.Tokens
import SourceSpans.Proofs.Mark.Visits

/-!
# Parentheses around a node

A rule with `wrap = "all"` takes every pair of parentheses right around what it has claimed so far
(`parenAround?_wrapAll`). The range is balanced once more after that, and this may take in a bracket that
makes room for another pair. It does so exactly if a bracket that `lead` or `trail` has taken has its
partner outside (`wrap_all_until_balance`); otherwise the range stays as wrapping has left it.

* **A pair around a span** (`Source.Surrounds`) is said in terms of tokens, and is what `parenAround?` finds
  (`parenAround?_eq_some_iff`).
* **What `lead` and `trail` take** (`Marker.RuleTakes`): the tokens of the match that a span is extended by.
  The match stands right next to the span, or to the span with some of the pairs around it
  (`Marker.Widens`).
* **Growing** (`Marker.Grows`): a span is made larger by comments and line breaks, by what is taken, and by
  parentheses with their partners. One lemma for each step, and the steps go one after the other
  (`Grows.trans`).
* **The last balance** finds the least closed span, so it changes nothing exactly if the span is closed, and
  a bracket that keeps it from being closed has been taken by `lead` or `trail` (`closed_taken_iff`).
* **Visits** (`Marker.found?`): the span that is extended is the one that the visit of the node has found.
-/

namespace SourceSpans

/-- A pair of parentheses right around a span. The opening one stands at `floor` or after, and between the
span and either of them there are only comments and line breaks. -/
structure Source.Surrounds (s : Source) (floor : Nat) (span : Span) (o c : Nat) : Prop where
  floor_le : floor ≤ o
  lt_first : o < span.first
  last_lt : span.last < c
  exists_opener : ∃ t, s.tokens[o]? = some t ∧ t.kind = .op ∧ t.text = ['(']
  partners : ArePartners (bracketPartners s.tokens) o c
  nothing_between : ∀ j t, o < j ∧ j < span.first ∨ span.last < j ∧ j < c → s.tokens[j]? = some t →
    t.kind.isNonCoding = true

namespace Marker

variable {source : Source} {policy : PolicyTable} {m : Marker} {r : Rule} {floor i p : Nat}
  {children : List Span} {s span found inner mid outer wide : Span} {takes : Nat → Prop}

/-! ### A pair around a span -/

/-- The pair that is found around a span surrounds it. -/
theorem parenAround?_eq_some_iff :
    (new source policy).parenAround? floor span = some outer ↔
      source.Surrounds floor span outer.first outer.last := by
  constructor
  · intro h
    obtain ⟨first, hfirst, h⟩ := Option.bind_eq_some_iff.1 h
    obtain ⟨last, hlast, h⟩ := Option.bind_eq_some_iff.1 h
    split_ifs at h with hpair
    obtain rfl := Option.some.inj h
    obtain ⟨hfloor, hlt, -, hbefore⟩ := findDown_eq_some_iff.1 hfirst
    obtain ⟨hlt', -, -, hafter⟩ := findUp_eq_some_iff.1 hlast
    obtain ⟨hopener, hpartner⟩ := hpair
    obtain ⟨t, ht, hfits⟩ := Source.holdsAt_eq_true_iff.1 hopener
    refine ⟨hfloor, hlt, hlt', ⟨t, ht, by simpa [Token.fits] using hfits⟩,
      partner?_eq_some_iff.1 hpartner, ?_⟩
    intro j u hj hu
    have hcoding : (new source policy).isCoding j = false := by
      rcases hj with hj | hj
      · exact hbefore j hj.1 hj.2
      · exact hafter j hj.1 hj.2
    exact isCoding_eq_false_iff.1 hcoding u hu
  · rintro ⟨hfloor, hlt, hlt', ⟨t, ht, hkind, htext⟩, hpartners, hnothing⟩
    have hpartner : (new source policy).partner? outer.first = some outer.last :=
      partner?_eq_some_iff.2 hpartners
    have hfirst : (new source policy).codingBefore? span.first floor = some outer.first := by
      refine findDown_eq_some_iff.2 ⟨hfloor, hlt, isCoding_of_partner?_eq_some hpartner, ?_⟩
      intro k hk hkfirst
      exact isCoding_eq_false_iff.2 fun u hu => hnothing k u (Or.inl ⟨hk, hkfirst⟩) hu
    have hlast : (new source policy).codingAfter? span.last = some outer.last := by
      have hcoding := isCoding_of_partner?_eq_some (partner?_comm hpartner)
      refine findUp_eq_some_iff.2 ⟨hlt', partner?_lt hpartner, hcoding, ?_⟩
      intro k hk hklast
      exact isCoding_eq_false_iff.2 fun u hu => hnothing k u (Or.inr ⟨hk, hklast⟩) hu
    have hopener : source.holdsAt (fun t => t.fits .op (some ['('])) outer.first = true :=
      Source.holdsAt_eq_true_iff.2 ⟨t, ht, by simp [Token.fits, hkind, htext]⟩
    unfold parenAround?
    rw [hfirst, Option.bind_some, hlast, Option.bind_some]
    exact if_pos ⟨hopener, hpartner⟩

/-- Wrapping stops where no pair is left around the span. -/
theorem parenAround?_wrapAll (floor : Nat) (s : Span) :
    m.parenAround? floor (m.wrapAll floor s) = none := by
  fun_induction wrapAll m floor s with
  | case1 s h => exact h
  | case2 s outer _ ih => exact ih

theorem not_surrounds_wrapAll (o c : Nat) :
    ¬ source.Surrounds floor ((new source policy).wrapAll floor s) o c := by
  intro h
  have hpair : (new source policy).parenAround? floor ((new source policy).wrapAll floor s) =
      some ⟨o, c⟩ := parenAround?_eq_some_iff.2 h
  rw [parenAround?_wrapAll] at hpair
  cases hpair

/-! ### Looking through parentheses -/

/-- The second span is the first one with some of the pairs of parentheses around it. -/
def Widens (m : Marker) (floor : Nat) : Span → Span → Prop :=
  Relation.ReflTransGen fun s outer => m.parenAround? floor s = some outer

theorem Widens.extends (h : m.Widens floor s wide) (hs : s.Within floor m.size) :
    m.Extends floor s wide := by
  induction h with
  | refl => exact .refl hs
  | tail _ hpair ih => exact ih.trans (extends_of_parenAround?_eq_some ih.within hpair)

/-- What is found by looking through parentheses is found for the span with some of them. -/
theorem exists_widens_of_reaching?_eq_some {attempt : Span → Option Span} {reach : Bool}
    (h : m.reaching? attempt floor reach s = some found) :
    ∃ wide, m.Widens floor s wide ∧ attempt wide = some found := by
  fun_induction reaching? m attempt floor reach s with
  | case1 s result hresult => exact ⟨s, .refl, hresult.trans h⟩
  | case2 => cases h
  | case3 s _ _ outer houter ih =>
    obtain ⟨wide, hwide, hfound⟩ := ih h
    exact ⟨wide, .head houter hwide, hfound⟩
  | case4 => cases h

/-- A span stays as it is, or it becomes what is found for the span with some of the pairs around it. -/
theorem getD_reaching?_cases (attempt : Span → Option Span) (floor : Nat) (reach : Bool) (s : Span) :
    (m.reaching? attempt floor reach s).getD s = s ∨ ∃ wide found, m.Widens floor s wide ∧
      attempt wide = some found ∧ (m.reaching? attempt floor reach s).getD s = found := by
  rcases hreach : m.reaching? attempt floor reach s with _ | found
  · exact Or.inl rfl
  · obtain ⟨wide, hwide, hfound⟩ := exists_widens_of_reaching?_eq_some hreach
    exact Or.inr ⟨wide, found, hwide, hfound, rfl⟩

theorem widens_wrapAll (s : Span) : m.Widens floor s (m.wrapAll floor s) := by
  fun_induction wrapAll m floor s with
  | case1 s _ => exact .refl
  | case2 s outer houter ih => exact .head houter ih

/-! ### What is taken -/

/-- The match of a sequence of `lead` by which a span is extended. It begins at `first` and ends right before
`wide`, which is the span with some of the pairs around it, or without any. -/
structure LeadMatch (m : Marker) (r : Rule) (floor : Nat) (s : Span) (ps : PatternSequence)
    (wide : Span) (first : Nat) : Prop where
  mem : ps ∈ r.lead
  widens : m.Widens floor s wide
  leadAt?_eq : m.leadAt? ps wide.first floor = some first
  withLead_eq : m.withLead r floor s = ⟨first, wide.last⟩

/-- The match of a sequence of `trail` by which a span is extended, right after `wide` and up to `last`. -/
structure TrailMatch (m : Marker) (r : Rule) (floor : Nat) (s : Span) (ps : PatternSequence)
    (wide : Span) (last : Nat) : Prop where
  mem : ps ∈ r.trail
  widens : m.Widens floor s wide
  trailAt?_eq : m.trailAt? ps wide = some last
  withTrail_eq : m.withTrail r floor s = ⟨wide.first, last⟩

/-- `lead` takes the token for a span: the token stands in the match by which the span is extended, and a
pattern of the match admits it. -/
def LeadTakes (m : Marker) (r : Rule) (floor : Nat) (s : Span) (i : Nat) : Prop :=
  ∃ ps wide first, m.LeadMatch r floor s ps wide first ∧ first ≤ i ∧ i < wide.first ∧
    ∃ q ∈ ps, m.admits q i = true

/-- `trail` takes the token for a span. -/
def TrailTakes (m : Marker) (r : Rule) (floor : Nat) (s : Span) (i : Nat) : Prop :=
  ∃ ps wide last, m.TrailMatch r floor s ps wide last ∧ wide.last < i ∧ i ≤ last ∧
    ∃ q ∈ ps, m.admits q i = true

/-- `lead` takes the token for the span, or `trail` takes it for what `lead` has made of the span. -/
def RuleTakes (m : Marker) (r : Rule) (floor : Nat) (s : Span) (i : Nat) : Prop :=
  m.LeadTakes r floor s i ∨ m.TrailTakes r floor (m.withLead r floor s) i

/-- Either nothing is put before a span, or a sequence of `lead` matches there. -/
theorem withLead_cases (r : Rule) (floor : Nat) (s : Span) :
    m.withLead r floor s = s ∨ ∃ ps wide first, m.LeadMatch r floor s ps wide first := by
  by_cases hempty : r.lead.isEmpty = true
  · exact Or.inl (by rw [withLead, if_pos hempty])
  have hwith : m.withLead r floor s =
      (m.reaching? (m.leadOf? r floor) floor r.reach s).getD s := by
    rw [withLead, if_neg hempty]
  rcases getD_reaching?_cases (m.leadOf? r floor) floor r.reach s with
    heq | ⟨wide, found, hwide, hfound, heq⟩
  · exact Or.inl (hwith.trans heq)
  · obtain ⟨first, hfirst, rfl⟩ := Option.map_eq_some_iff.1 hfound
    obtain ⟨ps, hps, hlead⟩ := List.exists_of_findSome?_eq_some hfirst
    exact Or.inr ⟨ps, wide, first, hps, hwide, hlead, hwith.trans heq⟩

/-- Either nothing is put after a span, or a sequence of `trail` matches there. -/
theorem withTrail_cases (r : Rule) (floor : Nat) (s : Span) :
    m.withTrail r floor s = s ∨ ∃ ps wide last, m.TrailMatch r floor s ps wide last := by
  by_cases hempty : r.trail.isEmpty = true
  · exact Or.inl (by rw [withTrail, if_pos hempty])
  have hwith : m.withTrail r floor s =
      (m.reaching? (m.trailOf? r) floor r.reach s).getD s := by
    rw [withTrail, if_neg hempty]
  rcases getD_reaching?_cases (m.trailOf? r) floor r.reach s with
    heq | ⟨wide, found, hwide, hfound, heq⟩
  · exact Or.inl (hwith.trans heq)
  · obtain ⟨last, hlast, rfl⟩ := Option.map_eq_some_iff.1 hfound
    obtain ⟨ps, hps, htrail⟩ := List.exists_of_findSome?_eq_some hlast
    exact Or.inr ⟨ps, wide, last, hps, hwide, htrail, hwith.trans heq⟩

theorem LeadTakes.holds (h : m.LeadTakes r floor s i) (hs : s.Within floor m.size) :
    (m.withLead r floor s).Holds i ∧ ¬ s.Holds i := by
  obtain ⟨ps, wide, first, hlead, hi, hlt, -⟩ := h
  have hwide := hlead.widens.extends hs
  rw [hlead.withLead_eq]
  refine ⟨⟨hi, hlt.le.trans hwide.within.first_le_last⟩, fun hin => ?_⟩
  exact (hlt.trans_le hwide.covers.1).not_ge hin.1

theorem TrailTakes.holds (h : m.TrailTakes r floor s i) (hs : s.Within floor m.size) :
    (m.withTrail r floor s).Holds i ∧ ¬ s.Holds i := by
  obtain ⟨ps, wide, last, htrail, hlt, hi, -⟩ := h
  have hwide := htrail.widens.extends hs
  rw [htrail.withTrail_eq]
  refine ⟨⟨hwide.within.first_le_last.trans hlt.le, hi⟩, fun hin => ?_⟩
  exact (hwide.covers.2.trans_lt hlt).not_ge hin.2

/-- What is taken for a span stands outside of the span, and in what it is extended to. -/
theorem RuleTakes.holds (h : m.RuleTakes r floor s i) (hs : s.Within floor m.size) :
    (m.withTrail r floor (m.withLead r floor s)).Holds i ∧ ¬ s.Holds i := by
  have hlead := extends_withLead r hs
  have htrail := extends_withTrail r hlead.within
  rcases h with h | h
  · obtain ⟨hholds, hout⟩ := h.holds hs
    exact ⟨htrail.covers.holds hholds, hout⟩
  · obtain ⟨hholds, hout⟩ := h.holds hlead.within
    exact ⟨hholds, fun hin => hout (hlead.covers.holds hin)⟩

/-! ### Growing -/

/-- A span is made larger by tokens without syntax of their own, by tokens that are taken, and by brackets
together with their partners. -/
structure Grows (m : Marker) (takes : Nat → Prop) (inner outer : Span) : Prop where
  covers : outer.Covers inner
  added : ∀ i, outer.Holds i → ¬ inner.Holds i →
    m.isCoding i = false ∨ takes i ∨ ∃ p, m.partner? i = some p ∧ outer.Holds p

namespace Grows

theorem refl (m : Marker) (takes : Nat → Prop) (s : Span) : m.Grows takes s s :=
  ⟨.refl s, fun _ hi hout => absurd hi hout⟩

theorem trans (h : m.Grows takes inner mid) (h' : m.Grows takes mid outer) :
    m.Grows takes inner outer := by
  refine ⟨h'.covers.trans h.covers, ?_⟩
  intro i hi hout
  by_cases hmid : mid.Holds i
  · rcases h.added i hmid hout with hcoding | htakes | ⟨p, hp, hholds⟩
    · exact Or.inl hcoding
    · exact Or.inr (Or.inl htakes)
    · exact Or.inr (Or.inr ⟨p, hp, h'.covers.holds hholds⟩)
  · exact h'.added i hi hmid

theorem mono {takes' : Nat → Prop} (h : m.Grows takes inner outer) (hsub : ∀ i, takes i → takes' i) :
    m.Grows takes' inner outer := by
  refine ⟨h.covers, ?_⟩
  intro i hi hout
  exact (h.added i hi hout).imp_right fun hadded => hadded.imp_left (hsub i)

end Grows

/-- A pair of parentheses comes with both its brackets. -/
theorem grows_of_parenAround?_eq_some (hle : s.first ≤ s.last)
    (h : (new source policy).parenAround? floor s = some outer) :
    (new source policy).Grows takes s outer := by
  obtain ⟨-, hfirst, hlast, -, hpartners, hnothing⟩ := parenAround?_eq_some_iff.1 h
  have hpartner : (new source policy).partner? outer.first = some outer.last :=
    partner?_eq_some_iff.2 hpartners
  have hends : outer.first ≤ outer.last := (hfirst.trans_le (hle.trans hlast.le)).le
  refine ⟨⟨hfirst.le, hlast.le⟩, ?_⟩
  intro i hi hout
  rcases hi.1.eq_or_lt with rfl | hopen
  · exact Or.inr (Or.inr ⟨outer.last, hpartner, hends, le_rfl⟩)
  · rcases hi.2.eq_or_lt with rfl | hclose
    · exact Or.inr (Or.inr ⟨outer.first, partner?_comm hpartner, le_rfl, hends⟩)
    · refine Or.inl (isCoding_eq_false_iff.2 fun t ht => hnothing i t ?_ ht)
      unfold Span.Holds at hout
      omega

theorem Widens.grows (h : (new source policy).Widens floor s wide)
    (hs : s.Within floor (new source policy).size) : (new source policy).Grows takes s wide := by
  induction h with
  | refl => exact .refl _ takes s
  | tail hwide hpair ih =>
    have hle := (Widens.extends hwide hs).within.first_le_last
    exact ih.trans (grows_of_parenAround?_eq_some hle hpair)

theorem admits_of_leadFrom {ps : List Pattern} :
    ∀ {i j : Nat}, m.leadFrom floor i ps = some j → ∀ k, j ≤ k → k < i →
      m.isCoding k = false ∨ ∃ q ∈ ps, m.admits q k = true := by
  induction ps with
  | nil =>
    intro i j h k hjk hki
    obtain rfl := Option.some.inj h
    exact absurd hjk hki.not_ge
  | cons q ps ih =>
    intro i j h k hjk hki
    obtain ⟨next, hnext, h⟩ := Option.bind_eq_some_iff.1 h
    obtain ⟨hnext, hadmits⟩ := Option.filter_eq_some_iff.1 hnext
    obtain ⟨-, -, -, hbetween⟩ := findDown_eq_some_iff.1 hnext
    rcases lt_trichotomy k next with hk | rfl | hk
    · obtain hcoding | ⟨q', hq', hadmits'⟩ := ih h k hjk hk
      · exact Or.inl hcoding
      · exact Or.inr ⟨q', List.mem_cons_of_mem q hq', hadmits'⟩
    · exact Or.inr ⟨q, List.mem_cons_self, hadmits⟩
    · exact Or.inl (hbetween k hk hki)

theorem admits_of_trailFrom {first : Nat} {ps : PatternSequence} :
    ∀ {i j : Nat}, m.trailFrom first i ps = some j → ∀ k, i < k → k ≤ j →
      m.isCoding k = false ∨ ∃ q ∈ ps, m.admits q k = true := by
  induction ps with
  | nil =>
    intro i j h k hik hkj
    obtain rfl := Option.some.inj h
    exact absurd hkj hik.not_ge
  | cons q ps ih =>
    intro i j h k hik hkj
    obtain ⟨next, hnext, h⟩ := Option.bind_eq_some_iff.1 h
    obtain ⟨hnext, hadmits⟩ := Option.filter_eq_some_iff.1 hnext
    obtain ⟨-, hadmits⟩ := Bool.and_eq_true_iff.1 hadmits
    obtain ⟨-, -, -, hbetween⟩ := findUp_eq_some_iff.1 hnext
    rcases lt_trichotomy k next with hk | rfl | hk
    · exact Or.inl (hbetween k hik hk)
    · exact Or.inr ⟨q, List.mem_cons_self, hadmits⟩
    · obtain hcoding | ⟨q', hq', hadmits'⟩ := ih h k hk hkj
      · exact Or.inl hcoding
      · exact Or.inr ⟨q', List.mem_cons_of_mem q hq', hadmits'⟩

theorem grows_withLead (hs : s.Within floor (new source policy).size) :
    (new source policy).Grows ((new source policy).LeadTakes r floor s) s
      ((new source policy).withLead r floor s) := by
  rcases withLead_cases r floor s with heq | ⟨ps, wide, first, hlead⟩
  · rw [heq]
    exact .refl _ _ s
  rw [hlead.withLead_eq]
  refine (hlead.widens.grows hs).trans ⟨⟨?_, le_rfl⟩, ?_⟩
  · exact (leadFrom_bounds hlead.leadAt?_eq (hlead.widens.extends hs).within.lo_le).2
  intro i hi hout
  have hlt : i < wide.first := by
    by_contra hle
    exact hout ⟨Nat.not_lt.1 hle, hi.2⟩
  obtain hcoding | ⟨q, hq, hadmits⟩ := admits_of_leadFrom hlead.leadAt?_eq i hi.1 hlt
  · exact Or.inl hcoding
  · exact Or.inr (Or.inl ⟨ps, wide, first, hlead, hi.1, hlt, q, List.mem_reverse.1 hq, hadmits⟩)

theorem grows_withTrail (hs : s.Within floor (new source policy).size) :
    (new source policy).Grows ((new source policy).TrailTakes r floor s) s
      ((new source policy).withTrail r floor s) := by
  rcases withTrail_cases r floor s with heq | ⟨ps, wide, last, htrail⟩
  · rw [heq]
    exact .refl _ _ s
  rw [htrail.withTrail_eq]
  refine (htrail.widens.grows hs).trans ⟨⟨le_rfl, ?_⟩, ?_⟩
  · exact (trailFrom_bounds htrail.trailAt?_eq (htrail.widens.extends hs).within.last_lt).1
  intro i hi hout
  have hlt : wide.last < i := by
    by_contra hle
    exact hout ⟨hi.1, Nat.not_lt.1 hle⟩
  obtain hcoding | ⟨q, hq, hadmits⟩ := admits_of_trailFrom htrail.trailAt?_eq i hlt hi.2
  · exact Or.inl hcoding
  · exact Or.inr (Or.inl ⟨ps, wide, last, htrail, hlt, hi.2, q, hq, hadmits⟩)

/-- `lead` and `trail` one after the other. -/
theorem grows_withTrail_withLead (hs : s.Within floor (new source policy).size) :
    (new source policy).Grows ((new source policy).RuleTakes r floor s) s
      ((new source policy).withTrail r floor ((new source policy).withLead r floor s)) := by
  have hlead := extends_withLead (m := new source policy) r hs
  have hbefore : (new source policy).Grows ((new source policy).RuleTakes r floor s) s
      ((new source policy).withLead r floor s) :=
    (grows_withLead hs).mono fun i hi => Or.inl hi
  exact hbefore.trans ((grows_withTrail hlead.within).mono fun i hi => Or.inr hi)

/-! ### The last balance -/

/-- What a node has claimed when its lead, its trail and all parentheses around it are taken, before the
last balance. -/
def taken (m : Marker) (r : Rule) (floor : Nat) (children : List Span) (found : Span) : Span :=
  m.wrapAll floor (m.withTrail r floor (m.withLead r floor (m.balance floor children none found)))

/-- A bracket that `lead` or `trail` has taken, while its partner lies outside of what the node has claimed,
and not before `floor`. -/
structure Strays (m : Marker) (r : Rule) (floor : Nat) (children : List Span) (found : Span)
    (i p : Nat) : Prop where
  takes : m.RuleTakes r floor (m.balance floor children none found) i
  partners : ArePartners (bracketPartners m.source.tokens) i p
  floor_le : floor ≤ p
  not_holds : ¬ (m.taken r floor children found).Holds p

theorem extends_taken (hfound : found.Within floor m.size) :
    m.Extends floor (m.withTrail r floor (m.withLead r floor (m.balance floor children none found)))
      (m.taken r floor children found) := by
  have hinner : m.Extends floor found (m.balance floor children none found) := extends_balance hfound
  have hlead := extends_withLead r hinner.within
  have htrail := extends_withTrail r hlead.within
  exact extends_wrapAll _ htrail.within

theorem grows_taken (hfound : found.Within floor (new source policy).size) :
    (new source policy).Grows
      ((new source policy).RuleTakes r floor ((new source policy).balance floor children none found))
      ((new source policy).balance floor children none found)
      ((new source policy).taken r floor children found) := by
  have hinner : ((new source policy).balance floor children none found).Within floor
      (new source policy).size := (extends_balance hfound).within
  have hlead := extends_withLead (m := new source policy) r hinner
  have htrail := extends_withTrail (m := new source policy) r hlead.within
  exact (grows_withTrail_withLead hinner).trans ((widens_wrapAll _).grows htrail.within)

/-- What a node has claimed is closed exactly if no bracket strays. -/
theorem closed_taken_iff (horder : Span.InOrder children)
    (hfound : found.Within floor (new source policy).size)
    (hchildren : ∀ c ∈ children, found.Covers c) :
    (new source policy).Closed floor children ((new source policy).taken r floor children found) ↔
      ∀ i p, ¬ (new source policy).Strays r floor children found i p := by
  have hinner : (new source policy).Extends floor found
      ((new source policy).balance floor children none found) := extends_balance hfound
  constructor
  · intro hclosed i p h
    obtain ⟨hholds, hout⟩ := h.takes.holds hinner.within
    refine h.not_holds (hclosed i p ?_ ?_ (partner?_eq_some_iff.2 h.partners) h.floor_le)
    · exact (extends_taken hfound).covers.holds hholds
    · intro c hc hin
      exact hout ((hinner.covers.trans (hchildren c hc)).holds hin)
  · intro hstrays i p hi hfree hp hfloor
    have hgrows : (new source policy).Grows _ _ ((new source policy).taken r floor children found) :=
      grows_taken hfound
    have hclosed := (leastClosed_balance (m := new source policy) horder hfound.lo_le).closed
    by_contra hout
    by_cases hholds : ((new source policy).balance floor children none found).Holds i
    · -- what the first balance has found holds the partners of its brackets
      exact hout (hgrows.covers.holds (hclosed i p hholds hfree hp hfloor))
    · rcases hgrows.added i hi hholds with hcoding | htakes | ⟨p', hp', hholds'⟩
      · rw [isCoding_of_partner?_eq_some hp] at hcoding
        cases hcoding
      · exact hstrays i p ⟨htakes, partner?_eq_some_iff.1 hp, hfloor, hout⟩
      · obtain rfl := Option.some.inj (hp.symm.trans hp')
        exact hout hholds'

/-- The least closed span around a span is the span itself exactly if that is closed. -/
theorem LeastClosed.eq_iff (h : m.LeastClosed floor children [span] s) :
    s = span ↔ m.Closed floor children span := by
  constructor
  · intro heq
    exact heq ▸ h.closed
  · intro hclosed
    have hcovers := h.covers span (List.mem_singleton_self span)
    exact (h.least span (by simpa using Span.Covers.refl span) hclosed).antisymm hcovers |>.symm

/-- What wrapping and the last balance make of a span that has been found, for a rule that takes all
parentheses. No pair is left around what the node has claimed before the last balance, the range is the least
closed span around it, and it is the same span exactly if no bracket strays. So where a pair is left
around the range, a bracket has strayed. -/
structure WrapsAll (m : Marker) (r : Rule) (floor : Nat) (children : List Span)
    (found span : Span) : Prop where
  not_surrounds : ∀ o c, ¬ m.source.Surrounds floor (m.taken r floor children found) o c
  leastClosed : m.LeastClosed floor children [m.taken r floor children found] span
  eq_taken_iff : span = m.taken r floor children found ↔
    ∀ i p, ¬ m.Strays r floor children found i p
  exists_strays : ∀ o c, m.source.Surrounds floor span o c →
    ∃ i p, m.Strays r floor children found i p

theorem wrapsAll_extend (hwrap : r.wrap = .all) (horder : Span.InOrder children)
    (hfound : found.Within floor (new source policy).size)
    (hchildren : ∀ c ∈ children, found.Covers c) :
    (new source policy).WrapsAll r floor children found
      ((new source policy).extend (some r) floor children found) := by
  have hextend : (new source policy).extend (some r) floor children found =
      (new source policy).balance floor children none
        ((new source policy).taken r floor children found) := by
    rw [extend_some_eq r horder hfound, hwrap]
    rfl
  have htaken : ((new source policy).taken r floor children found).Within floor
      (new source policy).size := (extends_taken hfound).within
  have hleast := leastClosed_balance (m := new source policy) horder htaken.lo_le
  rw [← hextend] at hleast
  have hiff := hleast.eq_iff.trans (closed_taken_iff horder hfound hchildren)
  refine ⟨fun o c => not_surrounds_wrapAll o c, hleast, hiff, ?_⟩
  intro o c hsurrounds
  by_contra hstrays
  have heq := hiff.2 fun i p h => hstrays ⟨i, p, h⟩
  rw [heq] at hsurrounds
  exact not_surrounds_wrapAll o c hsurrounds

/-! ### Visits -/

/-- The span with which a node is left, if it has one: the hull of its head and its children, or without
these the tokens of its literal or of `empty`. -/
def own? (m : Marker) (literal? : Option Literal) (rule? : Option Rule) (parentFloor : Nat)
    (f : Frame) (s : Pass) : Except Literal (Option Span) :=
  f.hull?.elim (m.leaf? literal? rule? parentFloor s.cursor) fun hull => .ok (some hull)

/-- The span with which a visit leaves its node, before the span is extended for the rule. -/
def found? (m : Marker) (v : Visit) : Option Span :=
  let rule? := m.policy.rule? v.tree.kind
  let (f, s) := m.enter v.tree.id rule? v.parentFloor v.before
  (m.visitAll rule? v.tree.children f s).toOption.bind fun (f, s) =>
    (m.own? v.tree.literal? rule? v.parentFloor f s).toOption.join

section leaving

variable {id : NodeId} {kind : String} {literal? : Option Literal} {rule? : Option Rule}
  {parentFloor : Nat} {f : Frame} {s s' : Pass}

/-- The tokens with which a node is left are the extension of a span. -/
theorem of_leave_eq_tokens
    (h : m.leave id kind literal? rule? parentFloor f s = .ok (.tokens span, s')) :
    ∃ found, m.own? literal? rule? parentFloor f s = .ok (some found) ∧
      span = m.extend rule? f.floor f.spans found := by
  unfold leave at h
  split at h
  · cases h
  · cases h
  · rename_i found hfound
    obtain ⟨hclaim, -⟩ := Prod.mk.inj (Except.ok.inj h)
    exact ⟨found, hfound, (Claim.tokens.inj hclaim).symm⟩

theorem of_own?_eq_some (h : m.own? literal? rule? parentFloor f s = .ok (some found)) :
    (∀ c ∈ f.spans, found.Covers c) ∧
      ∀ lo, lo ≤ s.cursor → (∀ c ∈ f.head?.toList ++ f.spans, c.Within lo m.size) →
        found.Within lo m.size := by
  unfold own? at h
  rcases hhull : f.hull? with _ | hull
  · rw [hhull, Option.elim_none] at h
    obtain ⟨-, hspans⟩ := Frame.of_hull?_eq_none hhull
    refine ⟨?_, fun lo hlo _ => (within_of_leaf?_eq_ok h).mono hlo⟩
    rw [hspans]
    exact nofun
  · rw [hhull, Option.elim_some] at h
    obtain rfl := Option.some.inj (Except.ok.inj h)
    obtain ⟨hcovers, hwithin⟩ := Frame.of_hull?_eq_some hhull
    exact ⟨fun c hc => hcovers c (List.mem_append_right _ hc), fun lo _ => hwithin lo m.size⟩

end leaving

/-- A visit that claims tokens has extended what it has found for the rule of the node, from where it was
entered and around the spans of the children in a settled table. -/
theorem exists_extend_of_visit {t : RangeTable} (hnodup : t.ids.Nodup) {v : Visit} {after : Pass}
    (hvisit : m.visit v.parentFloor v.tree v.before = .ok (.tokens span, after))
    (hsettles : t.Settles after []) :
    ∃ found, m.found? v = some found ∧ found.Within v.before.cursor m.size ∧
      (∀ c ∈ t.spansOf v.tree.children, found.Covers c) ∧
      span = m.extend (m.policy.rule? v.tree.kind) v.before.cursor (t.spansOf v.tree.children) found := by
  obtain ⟨parentFloor, ⟨id, kind, literal?, children⟩, before⟩ := v
  rcases henter : m.enter id (m.policy.rule? kind) parentFloor before with ⟨f₀, s₀⟩
  obtain ⟨hf₀, hfloor₀, -⟩ := Frame.Holds.enter henter
  obtain ⟨-, hspans₀, -⟩ := enter_eq henter
  rw [visit_node, henter] at hvisit
  obtain ⟨⟨f, s₁⟩, hall, hleave⟩ := bind_eq_ok hvisit
  obtain ⟨placed, waiting, -, hf, hfloor, -⟩ := visitAll_places children hall hf₀
  have hspans := spans_of_visitAll hnodup hall (hsettles.of_leave hleave)
  rw [hspans₀, List.nil_append] at hspans
  obtain ⟨found, hown, hspan⟩ := of_leave_eq_tokens hleave
  obtain ⟨hcovers, hwithin⟩ := of_own?_eq_some hown
  have hcursor : f.floor = before.cursor := hfloor.trans hfloor₀
  rw [hspans] at hspan hcovers
  rw [hcursor] at hspan
  refine ⟨found, ?_, hwithin before.cursor ?_ ?_, hcovers, hspan⟩
  · simp only [found?, SyntaxTree.kind, SyntaxTree.id, SyntaxTree.children, SyntaxTree.literal?, henter,
      hall, Except.toOption, Option.bind_some]
    rw [hown]
    rfl
  · exact hcursor ▸ hf.floor_le
  · exact hcursor ▸ hf.within

end Marker

section marked

variable {source : Source} {policy : PolicyTable} {g : NodeTable} {root : NodeId}
  {ranges : RangeTable}

/-- The tokens of a node in the table of a marked graph are an extension, for the rule of the node, of what
its visit has found. -/
theorem exists_extend_of_mark (hmark : mark source policy g root = .ok ranges) {v : Visit}
    (hv : (Marker.new source policy).Makes (g.visit root) v) {span : Span}
    (hspan : ranges.get? v.tree.id = some (.ofTokens span.first span.last)) :
    Span.InOrder (ranges.spansOf v.tree.children) ∧
      ∃ found, (Marker.new source policy).found? v = some found ∧
        found.Within v.before.cursor (Marker.new source policy).size ∧
        (∀ c ∈ ranges.spansOf v.tree.children, found.Covers c) ∧
        span = (Marker.new source policy).extend (policy.rule? v.tree.kind) v.before.cursor
          (ranges.spansOf v.tree.children) found := by
  have hnodup := nodup_ids_of_mark hmark
  obtain ⟨r, hr⟩ := placed_of_mark hmark hv.mem_subtrees
  refine ⟨hr.children.inOrder_spansOf hnodup, ?_⟩
  obtain ⟨s, hs, rfl⟩ := exists_of_mark_eq_ok hmark
  obtain ⟨claim, s₁, hvisit, hsettles⟩ := Marker.exists_visit_of_markTree hs
  obtain ⟨claim', s', hvisit', hsettles'⟩ := hv.exists_visit hvisit hsettles
  have hgiven := Marker.given_of_visit hnodup hvisit' hsettles'
  cases claim' with
  | nothing waiting =>
    obtain ⟨r, hr, hempty⟩ := hgiven
    obtain rfl := Option.some.inj (hspan.symm.trans hr)
    cases hempty
  | tokens span' =>
    obtain ⟨hfirst, hlast, -⟩ := TokenRange.mk.inj (Option.some.inj (hspan.symm.trans hgiven))
    obtain rfl : span' = span := by
      cases span
      cases span'
      rw [Span.mk.injEq]
      exact ⟨hfirst.symm, hlast.symm⟩
    exact Marker.exists_extend_of_visit hnodup hvisit' hsettles'

/-- **Wrapping takes all parentheses, up to the last balance.** In a marked graph every node is visited. Take
a node with tokens whose kind takes all parentheses around it, and the span that its visit has found. When
the brackets of the node are balanced for the last time, no pair of parentheses is left around what it has
claimed until then (`Marker.taken`). This is its range exactly if no bracket has strayed that `lead` or
`trail` has taken, and a pair is left around the range only if one has. -/
theorem wrap_all_until_balance (hmark : mark source policy g root = .ok ranges) :
    (∀ t ∈ (g.unfolding root).subtrees,
      ∃ v, (Marker.new source policy).Makes (g.visit root) v ∧ v.tree = t) ∧
    ∀ v, (Marker.new source policy).Makes (g.visit root) v → ∀ r, policy.rule? v.tree.kind = some r →
      r.wrap = .all → ∀ span : Span, ranges.get? v.tree.id = some (.ofTokens span.first span.last) →
        ∃ found, (Marker.new source policy).found? v = some found ∧
          (Marker.new source policy).WrapsAll r v.before.cursor (ranges.spansOf v.tree.children)
            found span := by
  refine ⟨fun t ht => exists_makes_of_mark hmark ht, ?_⟩
  intro v hv r hrule hwrap span hspan
  obtain ⟨horder, found, hfound, hwithin, hchildren, heq⟩ := exists_extend_of_mark hmark hv hspan
  rw [hrule] at heq
  rw [heq]
  exact ⟨found, hfound, Marker.wrapsAll_extend hwrap horder hwithin hchildren⟩

end marked

/-- A name in brackets and in parentheses. -/
def bracketSource : Source :=
  let line := "([x])\n".toList
  Source.build line
    [⟨.op, ['('], ⟨1, 0⟩, ⟨1, 1⟩, line⟩, ⟨.op, ['['], ⟨1, 1⟩, ⟨1, 2⟩, line⟩,
      ⟨.name, ['x'], ⟨1, 2⟩, ⟨1, 3⟩, line⟩, ⟨.op, [']'], ⟨1, 3⟩, ⟨1, 4⟩, line⟩,
      ⟨.op, [')'], ⟨1, 4⟩, ⟨1, 5⟩, line⟩, ⟨.newline, ['\n'], ⟨1, 5⟩, ⟨2, 0⟩, line⟩,
      ⟨.endMarker, [], ⟨2, 0⟩, ⟨2, 0⟩, []⟩]

/-- A rule that takes the opening bracket, and all parentheses. -/
def bracketRule : Rule := { lead := [[.token "["]], wrap := .all }

/-- The table with `bracketRule`. -/
def bracketPolicy : PolicyTable := ⟨"", none, [("A", bracketRule)]⟩

/-- One node, which stands for the name. -/
def bracketGraph : NodeTable where
  nodes := [(1, ⟨"A", some [], [], none, some (.text ['x'])⟩)]

/-- The closing bracket is taken in only after the parentheses have been looked for: the node gets the
brackets, and the parentheses around them stay. -/
theorem wrap_all_leaves_parentheses :
    Source.ofText? "([x])\n".toList = .ok bracketSource ∧
      bracketPolicy.rule? "A" = some bracketRule ∧ bracketRule.wrap = .all ∧
      mark bracketSource bracketPolicy bracketGraph 1 = .ok ⟨[(1, .ofTokens 1 3)]⟩ ∧
      (bracketGraph.visit 1).tree.kind = "A" ∧ (bracketGraph.visit 1).before.cursor = 0 ∧
      bracketSource.Surrounds 0 ⟨1, 3⟩ 0 4 := by
  have hpair : (Marker.new bracketSource bracketPolicy).parenAround? 0 ⟨1, 3⟩ = some ⟨0, 4⟩ := by
    decide +kernel
  exact ⟨by decide +kernel, rfl, rfl, by decide +kernel, by decide, rfl,
    Marker.parenAround?_eq_some_iff.1 hpair⟩

/-- The opening bracket is taken by `lead`, and the closing one stands behind what the node has claimed. -/
theorem strays_bracketSource :
    (Marker.new bracketSource bracketPolicy).Strays bracketRule 0 [] ⟨2, 2⟩ 1 3 := by
  have hinner : (Marker.new bracketSource bracketPolicy).balance 0 [] none ⟨2, 2⟩ = ⟨2, 2⟩ := by
    decide +kernel
  have hlead : (Marker.new bracketSource bracketPolicy).LeadMatch bracketRule 0 ⟨2, 2⟩ [.token "["]
      ⟨2, 2⟩ 1 := ⟨by decide, .refl, by decide +kernel, by decide +kernel⟩
  have htaken : (Marker.new bracketSource bracketPolicy).taken bracketRule 0 [] ⟨2, 2⟩ = ⟨1, 2⟩ := by
    decide +kernel
  have hpartner : (Marker.new bracketSource bracketPolicy).partner? 1 = some 3 := by decide +kernel
  refine ⟨Or.inl ?_, Marker.partner?_eq_some_iff.1 hpartner, by decide, ?_⟩
  · rw [hinner]
    exact ⟨_, _, _, hlead, le_rfl, by decide, .token "[", by decide, by decide +kernel⟩
  · rw [htaken]
    exact fun hholds => absurd hholds.2 (by decide)

/-- A name that is called, in two pairs of parentheses. -/
def wrappedCallSource : Source :=
  let line := "((f()))\n".toList
  Source.build line
    [⟨.op, ['('], ⟨1, 0⟩, ⟨1, 1⟩, line⟩, ⟨.op, ['('], ⟨1, 1⟩, ⟨1, 2⟩, line⟩,
      ⟨.name, ['f'], ⟨1, 2⟩, ⟨1, 3⟩, line⟩, ⟨.op, ['('], ⟨1, 3⟩, ⟨1, 4⟩, line⟩,
      ⟨.op, [')'], ⟨1, 4⟩, ⟨1, 5⟩, line⟩, ⟨.op, [')'], ⟨1, 5⟩, ⟨1, 6⟩, line⟩,
      ⟨.op, [')'], ⟨1, 6⟩, ⟨1, 7⟩, line⟩, ⟨.newline, ['\n'], ⟨1, 7⟩, ⟨2, 0⟩, line⟩,
      ⟨.endMarker, [], ⟨2, 0⟩, ⟨2, 0⟩, []⟩]

/-- A rule that takes the parentheses of a call, and all that are around it. -/
def wrappedCallRule : Rule := { trail := [[.token "(", .token ")"]], wrap := .all }

/-- The table with `wrappedCallRule`. -/
def wrappedCallPolicy : PolicyTable := ⟨"", none, [("A", wrappedCallRule)]⟩

/-- One node, which stands for the name of the call. -/
def wrappedCallGraph : NodeTable where
  nodes := [(1, ⟨"A", some [], [], none, some (.text ['f'])⟩)]

/-- In the one text the opening bracket, token 1, is taken, and its partner, token 3, is not: it has strayed.
In the other one both parentheses of the call are taken; nothing strays, and the pairs around the call are
taken too. -/
theorem wrap_all_until_balance_brackets :
    (mark bracketSource bracketPolicy bracketGraph 1 = .ok ⟨[(1, .ofTokens 1 3)]⟩ ∧
      (Marker.new bracketSource bracketPolicy).found? (bracketGraph.visit 1) = some ⟨2, 2⟩ ∧
      (Marker.new bracketSource bracketPolicy).taken bracketRule 0 [] ⟨2, 2⟩ = ⟨1, 2⟩ ∧
      (Marker.new bracketSource bracketPolicy).Strays bracketRule 0 [] ⟨2, 2⟩ 1 3 ∧
      (Marker.new bracketSource bracketPolicy).WrapsAll bracketRule 0 [] ⟨2, 2⟩ ⟨1, 3⟩) ∧
    Source.ofText? "((f()))\n".toList = .ok wrappedCallSource ∧
      mark wrappedCallSource wrappedCallPolicy wrappedCallGraph 1 = .ok ⟨[(1, .ofTokens 0 6)]⟩ ∧
      (Marker.new wrappedCallSource wrappedCallPolicy).found? (wrappedCallGraph.visit 1) = some ⟨2, 2⟩ ∧
      (Marker.new wrappedCallSource wrappedCallPolicy).withTrail wrappedCallRule 0 ⟨2, 2⟩ = ⟨2, 4⟩ ∧
      (Marker.new wrappedCallSource wrappedCallPolicy).taken wrappedCallRule 0 [] ⟨2, 2⟩ = ⟨0, 6⟩ ∧
      (∀ i p, ¬ (Marker.new wrappedCallSource wrappedCallPolicy).Strays wrappedCallRule 0 [] ⟨2, 2⟩ i p) ∧
      ∀ o c, ¬ wrappedCallSource.Surrounds 0 ⟨0, 6⟩ o c := by
  constructor
  · have hmark : mark bracketSource bracketPolicy bracketGraph 1 = .ok ⟨[(1, .ofTokens 1 3)]⟩ := by
      decide +kernel
    have hfound : (Marker.new bracketSource bracketPolicy).found? (bracketGraph.visit 1) =
        some ⟨2, 2⟩ := by decide +kernel
    have htaken : (Marker.new bracketSource bracketPolicy).taken bracketRule 0 [] ⟨2, 2⟩ = ⟨1, 2⟩ := by
      decide +kernel
    obtain ⟨-, hall⟩ := wrap_all_until_balance hmark
    obtain ⟨found, heq, hwraps⟩ := hall (bracketGraph.visit 1) (.self _) bracketRule (by decide) rfl
      ⟨1, 3⟩ (by decide)
    obtain rfl := Option.some.inj (hfound.symm.trans heq)
    exact ⟨hmark, hfound, htaken, strays_bracketSource, hwraps⟩
  · have hmark : mark wrappedCallSource wrappedCallPolicy wrappedCallGraph 1 =
        .ok ⟨[(1, .ofTokens 0 6)]⟩ := by decide +kernel
    have hfound : (Marker.new wrappedCallSource wrappedCallPolicy).found? (wrappedCallGraph.visit 1) =
        some ⟨2, 2⟩ := by decide +kernel
    have htaken : (Marker.new wrappedCallSource wrappedCallPolicy).taken wrappedCallRule 0 [] ⟨2, 2⟩ =
        ⟨0, 6⟩ := by decide +kernel
    obtain ⟨-, hall⟩ := wrap_all_until_balance hmark
    obtain ⟨found, heq, hwraps⟩ := hall (wrappedCallGraph.visit 1) (.self _) wrappedCallRule (by decide)
      rfl ⟨0, 6⟩ (by decide)
    obtain rfl := Option.some.inj (hfound.symm.trans heq)
    refine ⟨by decide +kernel, hmark, hfound, by decide +kernel, htaken, ?_, ?_⟩
    · exact hwraps.eq_taken_iff.1 htaken.symm
    · exact htaken ▸ hwraps.not_surrounds

end SourceSpans
