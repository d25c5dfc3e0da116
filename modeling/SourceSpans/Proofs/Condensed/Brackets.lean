import SourceSpans.Mark.Search
import SourceSpans.Proofs.Condensed.Tokens

/-!
# Brackets without comments

Comments and line breaks are no brackets, and the pass that pairs brackets reads nothing of a token but its
kind and its text. So the pairs of a source are those of its condensed source
(`Source.bracketPairs_eq`), and a marker for a source and one for its condensed source agree on all that
marking asks about tokens (`Marker.Condenses`, `Marker.condenses_new`).
-/

namespace SourceSpans

namespace Source

/-- Two indices by their ranks. -/
noncomputable def nthPair (s : Source) (pair : Nat × Nat) : Nat × Nat := (s.nth pair.1, s.nth pair.2)

/-- The tokens that are not passed over, without their places. -/
def bareTokens (tokens : List Token) : List Token :=
  (tokens.filter fun t => !t.kind.isNonCoding).map fun t => bareToken t.kind t.text

variable {s : Source} {i : Nat}

theorem toList_condensed (s : Source) : s.condensed.tokens.toList = bareTokens s.tokens.toList := by
  simp [condensed, ofCoding, coding, bareTokens]

/-- With brackets that are open at their ranks, the rest of the tokens has the pairs of the rest of the
condensed source. -/
theorem bracketPairsFrom_eq {rest : List Token} (h : s.tokens.toList.drop i = rest)
    (opened : List (Nat × Text)) :
    bracketPairsFrom (opened.map fun o => (s.nth o.1, o.2)) i rest =
      (bracketPairsFrom opened (s.rank i) (bareTokens rest)).map s.nthPair := by
  induction rest generalizing i opened with
  | nil => rfl
  | cons t rest ih =>
    have htoken : s.tokens[i]? = some t := by
      rw [← Array.getElem?_toList, ← List.head?_drop, h, List.head?_cons]
    have hpassed : s.isPassed i = t.kind.isNonCoding := isPassed_eq htoken
    have hrest : s.tokens.toList.drop (i + 1) = rest := by
      rw [← List.tail_drop, h, List.tail_cons]
    rcases hcoding : t.kind.isNonCoding with _ | _
    · rw [hcoding] at hpassed
      have hbare : bareTokens (t :: rest) = bareToken t.kind t.text :: bareTokens rest := by
        simp [bareTokens, hcoding]
      have hopener : (bareToken t.kind t.text).isOpener = t.isOpener := rfl
      have hcloser : (bareToken t.kind t.text).isCloser = t.isCloser := rfl
      have htext : (bareToken t.kind t.text).text = t.text := rfl
      have hrank := rank_add_one_of_not_isPassed hpassed
      have hnth := nth_rank hpassed
      rw [hbare]
      unfold bracketPairsFrom
      rw [hopener, hcloser, htext, ← hrank]
      split_ifs
      · rw [← ih hrest, List.map_cons, hnth]
      · rcases opened with _ | ⟨⟨o, text⟩, outer⟩
        · exact ih hrest []
        · simp only [List.map_cons]
          split_ifs
          · rw [List.map_cons, ih hrest outer, nthPair, hnth]
          · rw [← ih hrest, List.map_cons]
      · exact ih hrest opened
    · rw [hcoding] at hpassed
      have hbare : bareTokens (t :: rest) = bareTokens rest := by
        simp [bareTokens, hcoding]
      have hop : t.kind ≠ .op := by
        intro hkind
        rw [hkind] at hcoding
        cases hcoding
      have hopener : t.isOpener = false := by simp [Token.isOpener, hop]
      have hcloser : t.isCloser = false := by simp [Token.isCloser, hop]
      rw [hbare, ← rank_add_one_of_isPassed hpassed, ← ih hrest]
      conv_lhs => unfold bracketPairsFrom
      simp [hopener, hcloser]

/-- **The pairs of brackets are those of the condensed source.** -/
theorem bracketPairs_eq (s : Source) :
    bracketPairs s.tokens.toList = (bracketPairs s.condensed.tokens.toList).map s.nthPair := by
  have h := bracketPairsFrom_eq (s := s) (i := 0) List.drop_zero []
  rwa [rank_zero, ← toList_condensed] at h

end Source

/-! ### Partners -/

theorem partnerIn_map_nthPair (s : Source) (pairs : List (Nat × Nat)) (k : Nat) :
    partnerIn (pairs.map s.nthPair) (s.nth k) = (partnerIn pairs k).map s.nth := by
  unfold partnerIn
  induction pairs with
  | nil => rfl
  | cons pair pairs ih =>
    rw [List.map_cons, List.findSome?_cons, List.findSome?_cons, ih]
    simp only [Source.nthPair, Source.nth_inj]
    split_ifs <;> rfl

theorem partnerIn_map_of_isPassed {s : Source} {i : Nat} (h : s.isPassed i = true)
    (pairs : List (Nat × Nat)) : partnerIn (pairs.map s.nthPair) i = none := by
  have hne : ∀ k, s.nth k ≠ i := by
    rintro k rfl
    rw [s.isPassed_nth] at h
    cases h
  unfold partnerIn
  rw [List.findSome?_eq_none_iff]
  intro pair hpair
  obtain ⟨a, -, rfl⟩ := List.mem_map.1 hpair
  simp [Source.nthPair, hne]

namespace Marker

theorem partner?_new (source : Source) (policy : PolicyTable) (i : Nat) :
    (Marker.new source policy).partner? i = partnerIn (bracketPairs source.tokens.toList) i := by
  unfold partner? new bracketPartners
  by_cases hi : i < source.tokens.size
  · simp [hi]
  · have hnone : partnerIn (bracketPairs source.tokens.toList) i = none := by
      unfold partnerIn
      rw [List.findSome?_eq_none_iff]
      intro pair hpair
      have hlt := lt_of_mem_bracketPairsFrom (by simp) hpair
      simp only [Array.length_toList] at hlt
      have hfirst : pair.1 ≠ i := by omega
      have hsecond : pair.2 ≠ i := by omega
      simp [hfirst, hsecond]
    simp [hi, hnone]

/-- A marker for the condensed source of another marker's source. -/
structure Condenses (c m : Marker) : Prop where
  source_eq : c.source = m.source.condensed
  policy_eq : c.policy = m.policy
  /-- A bracket and its partner are known by their ranks. -/
  partner?_nth : ∀ k, m.partner? (m.source.nth k) = (c.partner? k).map m.source.nth
  partner?_of_isPassed : ∀ i, m.source.isPassed i = true → m.partner? i = none

/-- A source and its condensed source have the same brackets. -/
theorem condenses_new (source : Source) (policy : PolicyTable) :
    (Marker.new source.condensed policy).Condenses (Marker.new source policy) where
  source_eq := rfl
  policy_eq := rfl
  partner?_nth k := by
    rw [partner?_new, partner?_new, source.bracketPairs_eq]
    exact partnerIn_map_nthPair source _ k
  partner?_of_isPassed i hi := by
    rw [partner?_new, source.bracketPairs_eq]
    exact partnerIn_map_of_isPassed hi _

end Marker

end SourceSpans
