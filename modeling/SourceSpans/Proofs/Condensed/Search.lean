import SourceSpans.Proofs.Condensed.Brackets

/-!
# Searches without comments

Each search for the tokens of a node goes from token to token and passes over comments and over line breaks
inside logical lines. Started at the rank of a token, it finds in the condensed source the rank of what it
finds in the source itself: `search?_eq` for a head or an `empty`, `leadAt?_nth` and `trailAt?_nth` for what
stands before and after a span.
-/

namespace SourceSpans

section ranks

variable {α β γ δ : Type} {e : α → β}

/-- A search that goes on from what was found by rank finds by rank again. -/
theorem bind_map_eq (o : Option α) {f : β → Option δ} {g : α → Option γ} {e' : γ → δ}
    (h : ∀ a, f (e a) = (g a).map e') : (o.map e).bind f = (o.bind g).map e' := by
  cases o with
  | none => rfl
  | some a => exact h a

/-- What was found by rank is kept by rank. -/
theorem filter_map_eq (o : Option α) {p : β → Bool} {q : α → Bool} (h : ∀ a, p (e a) = q a) :
    (o.map e).filter p = (o.filter q).map e := by
  cases o with
  | none => rfl
  | some a =>
    simp only [Option.map_some, Option.filter_some, h]
    split_ifs <;> rfl

end ranks

/-- The span of the tokens with the ranks of a span. -/
noncomputable def Source.nthSpan (s : Source) (span : Span) : Span :=
  ⟨s.nth span.first, s.nth span.last⟩

@[simp] theorem Source.first_nthSpan (s : Source) (span : Span) :
    (s.nthSpan span).first = s.nth span.first := rfl

@[simp] theorem Source.last_nthSpan (s : Source) (span : Span) :
    (s.nthSpan span).last = s.nth span.last := rfl

/-- A property of tokens of some kinds only, none of them passed over, holds of no token that is passed
over. -/
theorem Source.not_isPassed_of_holdsAt {s : Source} {r : Token → Bool} {i : Nat}
    (hr : ∀ t, r t = true → t.kind.isNonCoding = false) (h : s.holdsAt r i = true) :
    s.isPassed i = false := by
  obtain ⟨t, ht, hrt⟩ := holdsAt_eq_true_iff.1 h
  rw [isPassed_eq ht, hr t hrt]

namespace Token

variable {t u : Token}

theorem isLexical_kind (kind : TokenKind) : IsLexical (·.kind == kind) :=
  fun t u hkind _ => by simp only [hkind]

theorem isLexical_coding : IsLexical fun t => !t.kind.isNonCoding :=
  fun t u hkind _ => by simp only [hkind]

theorem isLexical_closer : IsLexical (·.isCloser) :=
  fun t u hkind htext => by simp only [isCloser, hkind, htext]

theorem isLexical_fits (kind : TokenKind) (text? : Option Text) : IsLexical (·.fits kind text?) :=
  fun t u hkind htext => by simp only [fits, hkind, htext]

theorem isLexical_admits (p : Pattern) : IsLexical p.admits := by
  intro t u hkind htext
  cases p with
  | text s => simp only [Pattern.admits, hkind, htext]
  | kind k => simp only [Pattern.admits, hkind]
  | skip => rfl

theorem isNonCoding_of_isCloser (h : t.isCloser = true) : t.kind.isNonCoding = false := by
  unfold isCloser at h
  rw [Bool.and_eq_true, beq_iff_eq] at h
  rw [h.1]
  rfl

end Token

namespace Marker

variable {m c : Marker}

/-! ### Single tokens -/

theorem not_isPassed_of_isCoding {i : Nat} (h : m.isCoding i = true) :
    m.source.isPassed i = false :=
  Source.not_isPassed_of_holdsAt (fun t ht => by simpa using ht) h

theorem not_isPassed_of_isCoding_and {i : Nat} {b : Bool} (h : (m.isCoding i && b) = true) :
    m.source.isPassed i = false := by
  rw [Bool.and_eq_true] at h
  exact not_isPassed_of_isCoding h.1

theorem not_isPassed_of_hasKind {kind : TokenKind} (hkind : kind.isNonCoding = false) {i : Nat}
    (h : m.hasKind kind i = true) : m.source.isPassed i = false :=
  Source.not_isPassed_of_holdsAt (fun t ht => by rw [beq_iff_eq.1 ht, hkind]) h

theorem not_isPassed_of_closesBefore {bound i : Nat} (h : m.closesBefore bound i = true) :
    m.source.isPassed i = false := by
  unfold closesBefore at h
  rw [Bool.and_eq_true] at h
  exact Source.not_isPassed_of_holdsAt (fun t => Token.isNonCoding_of_isCloser) h.1

theorem not_isPassed_of_endsSearch {floor i : Nat} (h : m.endsSearch floor i = true) :
    m.source.isPassed i = false := by
  unfold endsSearch at h
  rcases (Bool.or_eq_true _ _).mp h with hend | hcloses
  · exact not_isPassed_of_hasKind rfl hend
  · exact not_isPassed_of_closesBefore hcloses

namespace Condenses

variable (h : c.Condenses m)

include h

theorem holdsAt_nth {r : Token → Bool} (hr : Token.IsLexical r) (k : Nat) :
    m.source.holdsAt r (m.source.nth k) = c.source.holdsAt r k := by
  rw [h.source_eq, Source.holdsAt_condensed hr]

theorem size_eq : c.size = m.source.rank m.size := by
  unfold size
  rw [h.source_eq, Source.size_condensed]

theorem findUp_eq {p q : Nat → Bool} (hp : ∀ i, p i = true → m.source.isPassed i = false)
    (hq : ∀ k, p (m.source.nth k) = q k) (i : Nat) :
    findUp p i m.size = (findUp q (m.source.rank i) c.size).map m.source.nth := by
  unfold size
  rw [h.source_eq]
  exact Source.findUp_eq hp hq i

theorem isCoding_nth (k : Nat) : m.isCoding (m.source.nth k) = c.isCoding k :=
  h.holdsAt_nth Token.isLexical_coding k

theorem hasKind_nth (kind : TokenKind) (k : Nat) :
    m.hasKind kind (m.source.nth k) = c.hasKind kind k :=
  h.holdsAt_nth (Token.isLexical_kind kind) k

theorem admits_nth (p : Pattern) (k : Nat) : m.admits p (m.source.nth k) = c.admits p k :=
  h.holdsAt_nth (Token.isLexical_admits p) k

theorem closesBefore_nth (bound k : Nat) :
    m.closesBefore bound (m.source.nth k) = c.closesBefore (m.source.rank bound) k := by
  unfold closesBefore
  rw [h.holdsAt_nth Token.isLexical_closer, h.partner?_nth, Option.all_map]
  simp only [Source.lt_rank_iff]

theorem endsSkip_nth (start k : Nat) :
    m.endsSkip (m.source.nth start) (m.source.nth k) = c.endsSkip start k := by
  unfold endsSkip
  rw [h.hasKind_nth, h.hasKind_nth, h.closesBefore_nth, Source.rank_nth]

theorem endsSearch_nth (floor k : Nat) :
    m.endsSearch floor (m.source.nth k) = c.endsSearch (m.source.rank floor) k := by
  unfold endsSearch
  rw [h.hasKind_nth, h.closesBefore_nth]

theorem codingAfter?_nth (k : Nat) :
    m.codingAfter? (m.source.nth k) = (c.codingAfter? k).map m.source.nth := by
  unfold codingAfter?
  rw [h.findUp_eq (fun _ => not_isPassed_of_isCoding) h.isCoding_nth, Source.rank_nth_add_one]

theorem codingBefore?_eq (i floor : Nat) :
    m.codingBefore? i floor =
      (c.codingBefore? (m.source.rank i) (m.source.rank floor)).map m.source.nth :=
  Source.findDown_eq (fun _ => not_isPassed_of_isCoding) h.isCoding_nth floor i

/-! ### Sequences of patterns -/

theorem skipTo?_nth (p : Pattern) (start k : Nat) :
    m.skipTo? p (m.source.nth start) (m.source.nth k) = (c.skipTo? p start k).map m.source.nth := by
  have hrank : ∀ k, (m.isCoding (m.source.nth k) &&
        (m.admits p (m.source.nth k) || m.endsSkip (m.source.nth start) (m.source.nth k))) =
      (c.isCoding k && (c.admits p k || c.endsSkip start k)) := by
    intro k
    rw [h.isCoding_nth, h.admits_nth, h.endsSkip_nth]
  unfold skipTo?
  rw [h.findUp_eq (fun _ => not_isPassed_of_isCoding_and) hrank, Source.rank_nth_add_one]
  exact filter_map_eq _ (h.admits_nth p)

theorem forwardFrom_nth (start : Nat) (ps : PatternSequence) (skipping : Bool) (k : Nat) :
    m.forwardFrom (m.source.nth start) skipping (m.source.nth k) ps =
      (c.forwardFrom start skipping k ps).map m.source.nth := by
  induction ps generalizing skipping k with
  | nil => rfl
  | cons p ps ih =>
    unfold forwardFrom
    split_ifs
    · exact ih true k
    · rw [h.skipTo?_nth]
      exact bind_map_eq _ (ih false)
    · rw [h.codingAfter?_nth, filter_map_eq _ (h.admits_nth p)]
      exact bind_map_eq _ (ih false)

theorem forwardAt?_nth (ps : PatternSequence) (k : Nat) :
    m.forwardAt? ps (m.source.nth k) = (c.forwardAt? ps k).map m.source.nth := by
  cases ps with
  | nil => rfl
  | cons p ps =>
    unfold forwardAt?
    dsimp only
    rw [h.admits_nth]
    split_ifs
    · exact h.forwardFrom_nth k ps false k
    · rfl

theorem anyForwardAt?_nth (alternatives : List PatternSequence) (k : Nat) :
    m.anyForwardAt? alternatives (m.source.nth k) =
      (c.anyForwardAt? alternatives k).map m.source.nth := by
  unfold anyForwardAt?
  rw [List.map_findSome?]
  exact congrArg (fun f => alternatives.findSome? f) (funext fun ps => h.forwardAt?_nth ps k)

/-- A match that starts at a rank is the one that starts there in the condensed source. -/
theorem map_anyForwardAt?_nth (alternatives : List PatternSequence) (k : Nat) :
    ((m.anyForwardAt? alternatives (m.source.nth k)).map fun last => ⟨m.source.nth k, last⟩) =
      ((c.anyForwardAt? alternatives k).map fun last => ⟨k, last⟩).map m.source.nthSpan := by
  rw [h.anyForwardAt?_nth, Option.map_map, Option.map_map]
  rfl

theorem search?_eq (alternatives : List PatternSequence) (i floor : Nat) :
    m.search? alternatives i floor =
      (c.search? alternatives (m.source.rank i) (m.source.rank floor)).map m.source.nthSpan := by
  have hpassed : ∀ j, (m.endsSearch floor j ||
      (m.isCoding j && (m.anyForwardAt? alternatives j).isSome)) = true →
        m.source.isPassed j = false := by
    intro j hj
    rcases (Bool.or_eq_true _ _).mp hj with hends | hmatch
    · exact not_isPassed_of_endsSearch hends
    · exact not_isPassed_of_isCoding_and hmatch
  have hrank : ∀ k, (m.endsSearch floor (m.source.nth k) ||
        (m.isCoding (m.source.nth k) && (m.anyForwardAt? alternatives (m.source.nth k)).isSome)) =
      (c.endsSearch (m.source.rank floor) k ||
        (c.isCoding k && (c.anyForwardAt? alternatives k).isSome)) := by
    intro k
    rw [h.endsSearch_nth, h.isCoding_nth, h.anyForwardAt?_nth, Option.isSome_map]
  have hfilter : ∀ o : Option Nat, (o.map m.source.nth).filter (fun j => !m.endsSearch floor j) =
      (o.filter fun k => !c.endsSearch (m.source.rank floor) k).map m.source.nth := by
    intro o
    exact filter_map_eq o fun k => by rw [h.endsSearch_nth]
  unfold search?
  dsimp only
  rw [h.findUp_eq hpassed hrank, hfilter]
  exact bind_map_eq _ (h.map_anyForwardAt?_nth alternatives)

theorem leadFrom_nth (floor : Nat) (ps : List Pattern) (k : Nat) :
    m.leadFrom floor (m.source.nth k) ps =
      (c.leadFrom (m.source.rank floor) k ps).map m.source.nth := by
  induction ps generalizing k with
  | nil => rfl
  | cons p ps ih =>
    unfold leadFrom
    rw [h.codingBefore?_eq, Source.rank_nth, filter_map_eq _ (h.admits_nth p)]
    exact bind_map_eq _ ih

theorem leadAt?_nth (ps : PatternSequence) (k floor : Nat) :
    m.leadAt? ps (m.source.nth k) floor =
      (c.leadAt? ps k (m.source.rank floor)).map m.source.nth :=
  h.leadFrom_nth floor ps.reverse k

theorem trailFrom_nth (first : Nat) (ps : PatternSequence) (k : Nat) :
    m.trailFrom (m.source.nth first) (m.source.nth k) ps =
      (c.trailFrom first k ps).map m.source.nth := by
  induction ps generalizing k with
  | nil => rfl
  | cons p ps ih =>
    have hadmits : ∀ j, (!m.endsSearch (m.source.nth first) (m.source.nth j) &&
        m.admits p (m.source.nth j)) = (!c.endsSearch first j && c.admits p j) := by
      intro j
      rw [h.endsSearch_nth, h.admits_nth, Source.rank_nth]
    unfold trailFrom
    rw [h.codingAfter?_nth, filter_map_eq _ hadmits]
    exact bind_map_eq _ ih

theorem trailAt?_nthSpan (ps : PatternSequence) (span : Span) :
    m.trailAt? ps (m.source.nthSpan span) = (c.trailAt? ps span).map m.source.nth :=
  h.trailFrom_nth span.first ps span.last

end Condenses

end Marker

end SourceSpans
