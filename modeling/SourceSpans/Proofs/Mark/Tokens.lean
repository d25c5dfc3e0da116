import SourceSpans.Mark.Search
import SourceSpans.Proofs.Mark.Pairing
import SourceSpans.Proofs.Source.Lookup

/-!
# Single tokens of a marker

What the marker for a source says about one token, in terms of the tokens of the source: whether it is a
coding token (`isCoding_eq_false_iff`), and which bracket is its partner (`partner?_eq_some_iff`). Only
brackets have partners (`isBracket_of_partner?_eq_some`), and a bracket is a coding token.
-/

namespace SourceSpans

namespace Token

variable {t : Token}

/-- Whether the token is a bracket, an opening or a closing one. -/
def isBracket (t : Token) : Bool := t.isOpener || t.isCloser

theorem kind_of_isBracket (h : t.isBracket = true) : t.kind = .op := by
  simp only [isBracket, isOpener, isCloser, Bool.or_eq_true, Bool.and_eq_true, beq_iff_eq] at h
  exact h.elim And.left And.left

end Token

namespace Marker

variable {source : Source} {policy : PolicyTable} {i p : Nat}

theorem isCoding_eq_false_iff :
    (new source policy).isCoding i = false ↔
      ∀ t, source.tokens[i]? = some t → t.kind.isNonCoding = true := by
  constructor
  · intro h t ht
    by_contra hkind
    have hcoding : (new source policy).isCoding i = true :=
      Source.holdsAt_eq_true_iff.2 ⟨t, ht, by simpa using hkind⟩
    rw [h] at hcoding
    cases hcoding
  · intro h
    apply Bool.eq_false_iff.2
    intro hcoding
    obtain ⟨t, ht, hkind⟩ := Source.holdsAt_eq_true_iff.1 hcoding
    rw [h t ht] at hkind
    cases hkind

theorem partner?_eq_some_iff :
    (new source policy).partner? i = some p ↔ ArePartners (bracketPartners source.tokens) i p :=
  Option.join_eq_some_iff

theorem partner?_comm (h : (new source policy).partner? i = some p) :
    (new source policy).partner? p = some i := by
  have hmatching := isMatching_bracketPartners source.tokens
  exact partner?_eq_some_iff.2 (hmatching.isMutual i p (partner?_eq_some_iff.1 h)).2

/-- Only brackets have partners. -/
theorem isBracket_of_partner?_eq_some (hp : (new source policy).partner? i = some p) :
    ∃ a, source.tokens[i]? = some a ∧ a.isBracket = true := by
  have hmatching := isMatching_bracketPartners source.tokens
  have hpartners := partner?_eq_some_iff.1 hp
  obtain ⟨hne, hpartners'⟩ := hmatching.isMutual i p hpartners
  simp only [Token.isBracket, Bool.or_eq_true]
  rcases hne.lt_or_gt with hlt | hlt
  · obtain ⟨-, o, c, ho, -, hpair⟩ := hmatching.brackets i p hpartners hlt
    exact ⟨o, by rwa [Array.getElem?_toList] at ho, Or.inl hpair.isOpener⟩
  · obtain ⟨-, o, c, -, hc, hpair⟩ := hmatching.brackets p i hpartners' hlt
    exact ⟨c, by rwa [Array.getElem?_toList] at hc, Or.inr hpair.isCloser⟩

theorem partner?_eq_none (h : ∀ a, source.tokens[i]? = some a → a.isBracket = false) :
    (new source policy).partner? i = none := by
  rw [Option.eq_none_iff_forall_ne_some]
  intro p hp
  obtain ⟨a, ha, hbracket⟩ := isBracket_of_partner?_eq_some hp
  rw [h a ha] at hbracket
  cases hbracket

/-- A token with a partner is a coding token. -/
theorem isCoding_of_partner?_eq_some (h : (new source policy).partner? i = some p) :
    (new source policy).isCoding i = true := by
  obtain ⟨a, ha, hbracket⟩ := isBracket_of_partner?_eq_some h
  have hkind := Token.kind_of_isBracket hbracket
  apply Source.holdsAt_eq_true_iff.2
  exact ⟨a, ha, by simp [hkind, TokenKind.isNonCoding]⟩

end Marker

end SourceSpans
