import SourceSpans.Source.Basic

/-!
# Bracket pairs

The brackets among the tokens of a source are paired in one pass with a stack of open brackets. A
closing bracket is paired with the innermost open one if the two belong together; otherwise it
stays alone and closes nothing. Bracket characters in strings and error tokens do not count.
-/

namespace SourceSpans

/-- Whether two brackets belong together. -/
def isBracketPair (opener closer : Text) : Bool :=
  (opener == ['('] && closer == [')']) || (opener == ['['] && closer == [']'])
    || (opener == ['\x7b'] && closer == ['\x7d'])

/-- The pairs closed by the tokens from an index on, when the given brackets are open, innermost
first. A pair is the index of its opening and the index of its closing bracket. -/
def bracketPairsFrom : (opened : List (Nat × Text)) → (index : Nat) → List Token →
    List (Nat × Nat)
  | _, _, [] => []
  | opened, i, t :: rest =>
      if t.isOpener then bracketPairsFrom ((i, t.text) :: opened) (i + 1) rest
      else if t.isCloser then
        match opened with
        | [] => bracketPairsFrom [] (i + 1) rest
        | (o, text) :: outer =>
            if isBracketPair text t.text then (o, i) :: bracketPairsFrom outer (i + 1) rest
            else bracketPairsFrom ((o, text) :: outer) (i + 1) rest
      else bracketPairsFrom opened (i + 1) rest

/-- The pairs of brackets among tokens. -/
def bracketPairs (tokens : List Token) : List (Nat × Nat) := bracketPairsFrom [] 0 tokens

/-- The other bracket of the pair that an index belongs to. -/
def partnerIn (pairs : List (Nat × Nat)) (index : Nat) : Option Nat :=
  pairs.findSome? fun (a, b) => if a = index then some b else if b = index then some a else none

/-- The partner of each token. -/
def bracketPartners (tokens : Array Token) : Array (Option Nat) :=
  let pairs := bracketPairs tokens.toList
  (Array.range tokens.size).map (partnerIn pairs)

/-- A pair opens before it closes, and closes at one of the tokens. -/
theorem lt_of_mem_bracketPairsFrom {opened : List (Nat × Text)} {i : Nat} {tokens : List Token}
    (hopen : ∀ x ∈ opened, x.1 < i) {a b : Nat} (h : (a, b) ∈ bracketPairsFrom opened i tokens) :
    a < b ∧ b < i + tokens.length := by
  induction tokens generalizing opened i with
  | nil => simp [bracketPairsFrom] at h
  | cons t tokens ih =>
    have step : ∀ {o : List (Nat × Text)}, (∀ x ∈ o, x.1 < i) → ∀ x ∈ o, x.1 < i + 1 :=
      fun ho x hx => Nat.lt_succ_of_lt (ho x hx)
    have done : ∀ {o : List (Nat × Text)}, (∀ x ∈ o, x.1 < i + 1) →
        (a, b) ∈ bracketPairsFrom o (i + 1) tokens → a < b ∧ b < i + (t :: tokens).length := by
      intro o ho hm
      have := ih ho hm
      rw [List.length_cons]
      omega
    unfold bracketPairsFrom at h
    split at h
    · refine done ?_ h
      intro x hx
      obtain rfl | hx := List.mem_cons.1 hx
      · simp
      · exact step hopen x hx
    split at h
    · split at h
      · exact done (by simp) h
      · rename_i o text outer
        have houter : ∀ x ∈ outer, x.1 < i := fun x hx => hopen x (List.mem_cons_of_mem _ hx)
        split at h
        · obtain heq | h := List.mem_cons.1 h
          · obtain ⟨rfl, rfl⟩ := Prod.mk.inj heq
            have := hopen _ List.mem_cons_self
            simp only [List.length_cons]
            omega
          · exact done (step houter) h
        · exact done (step hopen) h
    · exact done (step hopen) h

theorem lt_of_bracketPartners_eq_some {tokens : Array Token} {i p : Nat}
    (h : (bracketPartners tokens)[i]? = some (some p)) : p < tokens.size := by
  simp only [bracketPartners, Array.getElem?_map, Option.map_eq_some_iff] at h
  obtain ⟨j, -, hj⟩ := h
  obtain ⟨⟨a, b⟩, hmem, hab⟩ := List.exists_of_findSome?_eq_some hj
  have := lt_of_mem_bracketPairsFrom (by simp) hmem
  simp only [Array.length_toList] at this
  simp only at hab
  split at hab
  · obtain rfl := Option.some.inj hab; omega
  split at hab
  · obtain rfl := Option.some.inj hab; omega
  · simp at hab

end SourceSpans
