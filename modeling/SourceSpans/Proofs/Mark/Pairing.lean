import Mathlib.Data.List.Nodup
import Mathlib.Order.Nat
import Mathlib.Tactic.Common
import SourceSpans.Mark.Brackets

/-!
# Brackets are paired soundly

The pass that pairs brackets keeps a stack of those that are open. A closing bracket that does not fit
the innermost open one is left alone and closes nothing, so an open bracket may stay on the stack to
the end and keep those outside it from being closed. Whatever the tokens are:

* **What has been found so far** (`Paired`): an opening bracket that has been passed is on the stack or
  paired, never both, and those inside a pair have been paired inside it. Each kind of token keeps
  this (`Paired.opens`, `Paired.closes`, `Paired.passes`), so it holds at the end
  (`exists_paired_bracketPairs`).
* **The table of partners** (`bracketPartners_isMatching`): partners are mutual, an opening and a closing
  bracket of one type, and no two pairs cross.
* **Well-nested tokens** (`WellNested`): they leave the stack as it was (`WellNested.keepStack`), so in a
  well-nested list a bracket is paired with the one that encloses well-nested tokens with it.
-/

namespace SourceSpans

/-! ### Brackets of one type -/

/-- Two tokens are an opening and a closing bracket of one type. -/
def Token.Pairs (o c : Token) : Prop :=
  o.kind = .op ∧ c.kind = .op ∧ isBracketPair o.text c.text = true

namespace Token

variable {o c t : Token}

theorem isOpener_eq_false_of_isCloser (h : t.isCloser = true) : t.isOpener = false := by
  simp only [isCloser, Bool.and_eq_true, Bool.or_eq_true, beq_iff_eq] at h
  obtain ⟨-, (h | h) | h⟩ := h <;> simp [isOpener, h]

theorem Pairs.isOpener (h : o.Pairs c) : o.isOpener = true := by
  obtain ⟨hkind, -, htexts⟩ := h
  simp only [isBracketPair, Bool.or_eq_true, Bool.and_eq_true, beq_iff_eq] at htexts
  obtain (⟨h, -⟩ | ⟨h, -⟩) | ⟨h, -⟩ := htexts <;> simp [Token.isOpener, hkind, h]

theorem Pairs.isCloser (h : o.Pairs c) : c.isCloser = true := by
  obtain ⟨-, hkind, htexts⟩ := h
  simp only [isBracketPair, Bool.or_eq_true, Bool.and_eq_true, beq_iff_eq] at htexts
  obtain (⟨-, h⟩ | ⟨-, h⟩) | ⟨-, h⟩ := htexts <;> simp [Token.isCloser, hkind, h]

theorem pairs_of_isBracketPair (ho : o.isOpener = true) (hc : c.isCloser = true)
    (h : isBracketPair o.text c.text = true) : o.Pairs c := by
  simp only [Token.isOpener, Token.isCloser, Bool.and_eq_true, beq_iff_eq] at ho hc
  exact ⟨ho.1, hc.1, h⟩

end Token

/-- One token is an opening bracket and a later one a closing bracket of its type. -/
def BracketsAt (tokens : List Token) (i j : Nat) : Prop :=
  i < j ∧ ∃ o c, tokens[i]? = some o ∧ tokens[j]? = some c ∧ o.Pairs c

/-! ### One token after the other -/

/-- What has been found among the tokens before `i`: the brackets that are open, the innermost one
first, and the pairs. -/
structure Paired (tokens : List Token) (i : Nat) (opened : List (Nat × Text))
    (pairs : List (Nat × Nat)) : Prop where
  descends : opened.Pairwise fun a b => b.1 < a.1
  opener : ∀ x ∈ opened, x.1 < i ∧ ∃ t, tokens[x.1]? = some t ∧ t.isOpener = true ∧ t.text = x.2
  pair : ∀ p ∈ pairs, p.2 < i ∧ BracketsAt tokens p.1 p.2
  open_ne : ∀ x ∈ opened, ∀ p ∈ pairs, p.1 ≠ x.1
  nodup_first : (pairs.map Prod.fst).Nodup
  nodup_last : (pairs.map Prod.snd).Nodup
  /-- An opening bracket that has been passed is open or paired. -/
  passed : ∀ k t, k < i → tokens[k]? = some t → t.isOpener = true →
    (∃ x ∈ opened, x.1 = k) ∨ ∃ p ∈ pairs, p.1 = k
  /-- An opening bracket inside a pair is paired inside it. -/
  inner : ∀ p ∈ pairs, ∀ k t, p.1 < k → k < p.2 → tokens[k]? = some t → t.isOpener = true →
    ∃ q ∈ pairs, q.1 = k ∧ q.2 < p.2

namespace Paired

variable {tokens : List Token} {i : Nat} {opened : List (Nat × Text)} {pairs : List (Nat × Nat)}
  {t : Token}

theorem nil (tokens : List Token) : Paired tokens 0 [] [] := by
  constructor <;> simp

/-- An opening bracket is put on the stack. -/
theorem opens (h : Paired tokens i opened pairs) (ht : tokens[i]? = some t)
    (hopener : t.isOpener = true) : Paired tokens (i + 1) ((i, t.text) :: opened) pairs where
  descends := List.pairwise_cons.2 ⟨fun x hx => (h.opener x hx).1, h.descends⟩
  opener x hx := by
    rcases List.mem_cons.1 hx with rfl | hx
    · exact ⟨Nat.lt_succ_self i, t, ht, hopener, rfl⟩
    · obtain ⟨hlt, hx⟩ := h.opener x hx
      exact ⟨Nat.lt_succ_of_lt hlt, hx⟩
  pair p hp := ⟨Nat.lt_succ_of_lt (h.pair p hp).1, (h.pair p hp).2⟩
  open_ne x hx p hp := by
    rcases List.mem_cons.1 hx with rfl | hx
    · -- a pair that has been found lies before `i`
      obtain ⟨hlast, hlt, -⟩ := h.pair p hp
      exact (hlt.trans hlast).ne
    · exact h.open_ne x hx p hp
  nodup_first := h.nodup_first
  nodup_last := h.nodup_last
  passed k u hk hu hkopener := by
    rcases Nat.lt_succ_iff_lt_or_eq.1 hk with hk | rfl
    · refine (h.passed k u hk hu hkopener).imp_left ?_
      rintro ⟨x, hx, hxk⟩
      exact ⟨x, List.mem_cons_of_mem _ hx, hxk⟩
    · exact Or.inl ⟨_, List.mem_cons_self, rfl⟩
  inner := h.inner

/-- A token that is no opening bracket and closes none leaves all as it was. -/
theorem passes (h : Paired tokens i opened pairs) (ht : tokens[i]? = some t)
    (hopener : t.isOpener ≠ true) : Paired tokens (i + 1) opened pairs where
  descends := h.descends
  opener x hx := ⟨Nat.lt_succ_of_lt (h.opener x hx).1, (h.opener x hx).2⟩
  pair p hp := ⟨Nat.lt_succ_of_lt (h.pair p hp).1, (h.pair p hp).2⟩
  open_ne := h.open_ne
  nodup_first := h.nodup_first
  nodup_last := h.nodup_last
  passed k u hk hu hkopener := by
    rcases Nat.lt_succ_iff_lt_or_eq.1 hk with hk | rfl
    · exact h.passed k u hk hu hkopener
    · obtain rfl := Option.some.inj (ht.symm.trans hu)
      exact absurd hkopener hopener
  inner := h.inner

/-- A closing bracket is paired with the innermost open one if the two are of one type. -/
theorem closes {o : Nat} {text : Text} (h : Paired tokens i ((o, text) :: opened) pairs)
    (ht : tokens[i]? = some t) (hcloser : t.isCloser = true)
    (hpair : isBracketPair text t.text = true) :
    Paired tokens (i + 1) opened (pairs ++ [(o, i)]) := by
  obtain ⟨hbelow, hdescends⟩ := List.pairwise_cons.1 h.descends
  obtain ⟨hlt, u, hu, hopener, rfl⟩ := h.opener (o, text) List.mem_cons_self
  have hfresh := h.open_ne (o, u.text) List.mem_cons_self
  refine ⟨hdescends, ?_, ?_, ?_, ?_, ?_, ?_, ?_⟩
  · intro x hx
    obtain ⟨hx', hx⟩ := h.opener x (List.mem_cons_of_mem _ hx)
    exact ⟨Nat.lt_succ_of_lt hx', hx⟩
  · intro p hp
    rcases List.mem_append.1 hp with hp | hp
    · exact ⟨Nat.lt_succ_of_lt (h.pair p hp).1, (h.pair p hp).2⟩
    · obtain rfl := List.mem_singleton.1 hp
      exact ⟨Nat.lt_succ_self i, hlt, u, t, hu, ht,
        Token.pairs_of_isBracketPair hopener hcloser hpair⟩
  · intro x hx p hp
    rcases List.mem_append.1 hp with hp | hp
    · exact h.open_ne x (List.mem_cons_of_mem _ hx) p hp
    · obtain rfl := List.mem_singleton.1 hp
      exact (hbelow x hx).ne'
  · rw [List.map_append, List.map_singleton, List.nodup_append]
    refine ⟨h.nodup_first, List.nodup_singleton _, ?_⟩
    simpa using hfresh
  · rw [List.map_append, List.map_singleton, List.nodup_append]
    refine ⟨h.nodup_last, List.nodup_singleton _, ?_⟩
    simpa using fun b a hab => (h.pair (a, b) hab).1.ne
  · intro k v hk hv hkopener
    rcases Nat.lt_succ_iff_lt_or_eq.1 hk with hk | rfl
    · rcases h.passed k v hk hv hkopener with ⟨x, hx, rfl⟩ | ⟨p, hp, hpk⟩
      · rcases List.mem_cons.1 hx with rfl | hx
        · exact Or.inr ⟨(o, i), by simp, rfl⟩
        · exact Or.inl ⟨x, hx, rfl⟩
      · exact Or.inr ⟨p, List.mem_append_left _ hp, hpk⟩
    · obtain rfl := Option.some.inj (ht.symm.trans hv)
      rw [Token.isOpener_eq_false_of_isCloser hcloser] at hkopener
      cases hkopener
  · intro p hp k v hpk hkp hv hkopener
    rcases List.mem_append.1 hp with hp | hp
    · obtain ⟨q, hq, hqk, hqp⟩ := h.inner p hp k v hpk hkp hv hkopener
      exact ⟨q, List.mem_append_left _ hq, hqk, hqp⟩
    · obtain rfl := List.mem_singleton.1 hp
      -- what is open below `o` stands before `o`, so an opening bracket after it has been paired
      rcases h.passed k v hkp hv hkopener with ⟨x, hx, rfl⟩ | ⟨q, hq, hqk⟩
      · rcases List.mem_cons.1 hx with rfl | hx
        · exact absurd hpk (Nat.lt_irrefl _)
        · exact absurd hpk (hbelow x hx).not_gt
      · exact ⟨q, List.mem_append_left _ hq, hqk, (h.pair q hq).1⟩

/-- A token adds the pair that it closes, if it closes one. -/
theorem step (h : Paired tokens i opened pairs) (ht : tokens[i]? = some t) :
    ∃ found opened', (∀ rest, bracketPairsFrom opened i (t :: rest) =
        found ++ bracketPairsFrom opened' (i + 1) rest) ∧
      Paired tokens (i + 1) opened' (pairs ++ found) := by
  by_cases hopener : t.isOpener = true
  · refine ⟨[], (i, t.text) :: opened, fun rest => ?_, ?_⟩
    · simp [bracketPairsFrom, hopener]
    · simpa using h.opens ht hopener
  have hpasses : Paired tokens (i + 1) opened (pairs ++ []) := by
    simpa using h.passes ht hopener
  by_cases hcloser : t.isCloser = true
  · rcases opened with _ | ⟨⟨o, text⟩, outer⟩
    · exact ⟨[], [], fun rest => by simp [bracketPairsFrom, hopener, hcloser], hpasses⟩
    · by_cases hpair : isBracketPair text t.text = true
      · refine ⟨[(o, i)], outer, fun rest => ?_, h.closes ht hcloser hpair⟩
        simp [bracketPairsFrom, hopener, hcloser, hpair]
      · refine ⟨[], _, fun rest => ?_, hpasses⟩
        simp [bracketPairsFrom, hopener, hcloser, hpair]
  · exact ⟨[], _, fun rest => by simp [bracketPairsFrom, hopener, hcloser], hpasses⟩

/-- Tokens add the pairs that they close. -/
theorem run (front rest : List Token) (hdrop : tokens.drop i = front ++ rest)
    (h : Paired tokens i opened pairs) :
    ∃ found opened', bracketPairsFrom opened i (front ++ rest) =
        found ++ bracketPairsFrom opened' (i + front.length) rest ∧
      Paired tokens (i + front.length) opened' (pairs ++ found) := by
  induction front generalizing i opened pairs with
  | nil => exact ⟨[], opened, rfl, by simpa using h⟩
  | cons t front ih =>
    have ht : tokens[i]? = some t := by
      rw [← List.head?_drop, hdrop, List.cons_append, List.head?_cons]
    have hdrop' : tokens.drop (i + 1) = front ++ rest := by
      rw [← List.tail_drop, hdrop, List.cons_append, List.tail_cons]
    have hlength : i + (t :: front).length = i + 1 + front.length := by
      rw [List.length_cons]
      omega
    obtain ⟨found, opened₁, hstep, h₁⟩ := h.step ht
    obtain ⟨found', opened₂, hrun, h₂⟩ := ih hdrop' h₁
    refine ⟨found ++ found', opened₂, ?_, ?_⟩
    · rw [List.cons_append, hstep, hrun, hlength, List.append_assoc]
    · rw [hlength, ← List.append_assoc]
      exact h₂

end Paired

theorem exists_paired_bracketPairs (tokens : List Token) :
    ∃ opened, Paired tokens tokens.length opened (bracketPairs tokens) := by
  obtain ⟨found, opened, hrun, h⟩ :=
    (Paired.nil tokens).run tokens [] (by simp)
  have hfound : bracketPairs tokens = found := by
    simpa [bracketPairs, bracketPairsFrom] using hrun
  refine ⟨opened, ?_⟩
  simpa [hfound] using h

/-! ### Partners -/

/-- Two tokens are partners in a table. -/
def ArePartners (table : Array (Option Nat)) (i j : Nat) : Prop := table[i]? = some (some j)

/-- A table that pairs brackets. -/
structure IsMatching (tokens : Array Token) (table : Array (Option Nat)) : Prop where
  size_eq : table.size = tokens.size
  isMutual : ∀ i j, ArePartners table i j → i ≠ j ∧ ArePartners table j i
  brackets : ∀ i j, ArePartners table i j → i < j → BracketsAt tokens.toList i j
  not_crossing : ∀ i j k l, ArePartners table i j → ArePartners table k l →
    ¬ (i < k ∧ k < j ∧ j < l)
  /-- An opening bracket inside a pair has a partner inside it. -/
  inner : ∀ i j k t, ArePartners table i j → i < k → k < j → tokens[k]? = some t →
    t.isOpener = true → ∃ l, ArePartners table k l ∧ k < l ∧ l < j

namespace Paired

variable {tokens : List Token} {n : Nat} {opened : List (Nat × Text)} {pairs : List (Nat × Nat)}
  {i j k : Nat}

theorem eq_of_first (h : Paired tokens n opened pairs) (hj : (i, j) ∈ pairs)
    (hk : (i, k) ∈ pairs) : j = k :=
  (Prod.mk.inj (List.inj_on_of_nodup_map h.nodup_first hj hk rfl)).2

theorem eq_of_last (h : Paired tokens n opened pairs) (hj : (j, i) ∈ pairs)
    (hk : (k, i) ∈ pairs) : j = k :=
  (Prod.mk.inj (List.inj_on_of_nodup_map h.nodup_last hj hk rfl)).1

/-- No token opens one pair and closes another. -/
theorem not_mem_of_first (h : Paired tokens n opened pairs) (hj : (i, j) ∈ pairs) :
    (k, i) ∉ pairs := by
  intro hk
  obtain ⟨-, -, o, _, ho, -, hpair⟩ := h.pair _ hj
  obtain ⟨-, -, _, c, -, hc, hpair'⟩ := h.pair _ hk
  obtain rfl := Option.some.inj (ho.symm.trans hc)
  have hopener := hpair.isOpener
  rw [Token.isOpener_eq_false_of_isCloser hpair'.isCloser] at hopener
  cases hopener

theorem partnerIn_eq_some_iff (h : Paired tokens n opened pairs) :
    partnerIn pairs i = some j ↔ (i, j) ∈ pairs ∨ (j, i) ∈ pairs := by
  have hmem : ∀ {l}, partnerIn pairs i = some l → (i, l) ∈ pairs ∨ (l, i) ∈ pairs := by
    intro l hl
    obtain ⟨⟨a, b⟩, hab, hl⟩ := List.exists_of_findSome?_eq_some hl
    simp only at hl
    split_ifs at hl with ha hb
    · obtain rfl := Option.some.inj hl
      exact Or.inl (ha ▸ hab)
    · obtain rfl := Option.some.inj hl
      exact Or.inr (hb ▸ hab)
  refine ⟨hmem, fun hj => ?_⟩
  have hsome : (partnerIn pairs i).isSome = true := by
    unfold partnerIn
    rw [List.findSome?_isSome_iff]
    rcases hj with hj | hj
    · exact ⟨_, hj, by simp⟩
    · exact ⟨_, hj, by simp only; split_ifs <;> rfl⟩
  obtain ⟨l, hl⟩ := Option.isSome_iff_exists.1 hsome
  rw [hl]
  congr 1
  -- an index belongs to one pair only
  rcases hj with hj | hj <;> rcases hmem hl with hl | hl
  · exact h.eq_of_first hl hj
  · exact absurd hl (h.not_mem_of_first hj)
  · exact absurd hj (h.not_mem_of_first hl)
  · exact h.eq_of_last hl hj

end Paired

theorem arePartners_iff {tokens : Array Token} {i j : Nat} :
    ArePartners (bracketPartners tokens) i j ↔
      (i, j) ∈ bracketPairs tokens.toList ∨ (j, i) ∈ bracketPairs tokens.toList := by
  obtain ⟨opened, h⟩ := exists_paired_bracketPairs tokens.toList
  rw [← h.partnerIn_eq_some_iff]
  have hsize : partnerIn (bracketPairs tokens.toList) i = some j → i < tokens.size := by
    intro hj
    rw [← Array.length_toList]
    rcases h.partnerIn_eq_some_iff.1 hj with hj | hj
    · obtain ⟨hlast, hlt, -⟩ := h.pair _ hj
      exact hlt.trans hlast
    · exact (h.pair _ hj).1
  unfold ArePartners bracketPartners
  by_cases hi : i < tokens.size
  · simp [hi]
  · simpa [hi] using fun hj => hi (hsize hj)

/-- Partners are the two brackets of a pair, and the one that opens it stands first. -/
theorem mem_bracketPairs_of_arePartners {tokens : Array Token} {i j : Nat} (hlt : i < j)
    (h : ArePartners (bracketPartners tokens) i j) : (i, j) ∈ bracketPairs tokens.toList := by
  rcases arePartners_iff.1 h with h | h
  · exact h
  · obtain ⟨opened, hpaired⟩ := exists_paired_bracketPairs tokens.toList
    exact absurd (hpaired.pair _ h).2.1 hlt.not_gt

theorem isMatching_bracketPartners (tokens : Array Token) :
    IsMatching tokens (bracketPartners tokens) := by
  obtain ⟨opened, hpaired⟩ := exists_paired_bracketPairs tokens.toList
  have hinner : ∀ i j k t, ArePartners (bracketPartners tokens) i j → i < k → k < j →
      tokens[k]? = some t → t.isOpener = true →
        ∃ l, (k, l) ∈ bracketPairs tokens.toList ∧ l < j := by
    intro i j k t hij hik hkj ht hopener
    rw [← Array.getElem?_toList] at ht
    have hmem := mem_bracketPairs_of_arePartners (hik.trans hkj) hij
    obtain ⟨⟨a, l⟩, hal, rfl, hlj⟩ := hpaired.inner _ hmem k t hik hkj ht hopener
    exact ⟨l, hal, hlj⟩
  refine ⟨by simp [bracketPartners], ?_, ?_, ?_, ?_⟩
  · intro i j hij
    have hij' := arePartners_iff.1 hij
    refine ⟨?_, arePartners_iff.2 hij'.symm⟩
    rcases hij' with h | h
    · exact (hpaired.pair _ h).2.1.ne
    · exact (hpaired.pair _ h).2.1.ne'
  · intro i j hij hlt
    exact (hpaired.pair _ (mem_bracketPairs_of_arePartners hlt hij)).2
  · rintro i j k l hij hkl ⟨hik, hkj, hjl⟩
    -- the bracket that opens the second pair stands inside the first one, so it is closed there
    have hmem := mem_bracketPairs_of_arePartners (hkj.trans hjl) hkl
    obtain ⟨-, -, t, _, ht, -, hpair⟩ := hpaired.pair _ hmem
    rw [Array.getElem?_toList] at ht
    obtain ⟨l', hl', hlt⟩ := hinner i j k t hij hik hkj ht hpair.isOpener
    have := hpaired.eq_of_first hmem hl'
    omega
  · intro i j k t hij hik hkj ht hopener
    obtain ⟨l, hkl, hlj⟩ := hinner i j k t hij hik hkj ht hopener
    exact ⟨l, arePartners_iff.2 (Or.inl hkl), (hpaired.pair _ hkl).2.1, hlj⟩

/-! ### Well-nested tokens -/

/-- Tokens in which each bracket is closed by one of its type, inner ones before outer ones. -/
inductive WellNested : List Token → Prop
  | nil : WellNested []
  | other {t : Token} {rest : List Token} (hopener : t.isOpener = false)
      (hcloser : t.isCloser = false) (hrest : WellNested rest) : WellNested (t :: rest)
  | enclose {o c : Token} {inner rest : List Token} (hpair : o.Pairs c)
      (hinner : WellNested inner) (hrest : WellNested rest) :
      WellNested (o :: (inner ++ c :: rest))

/-- Two brackets of one type with well-nested tokens between them. -/
def Encloses (tokens : List Token) (i j : Nat) : Prop :=
  ∃ before o inner c after, tokens = before ++ o :: (inner ++ c :: after) ∧ before.length = i ∧
    i + inner.length + 1 = j ∧ o.Pairs c ∧ WellNested inner

theorem bracketPairsFrom_opener {opened : List (Nat × Text)} {i : Nat} {o : Token}
    (h : o.isOpener = true) (rest : List Token) :
    bracketPairsFrom opened i (o :: rest) =
      bracketPairsFrom ((i, o.text) :: opened) (i + 1) rest := by
  simp [bracketPairsFrom, h]

theorem bracketPairsFrom_other {opened : List (Nat × Text)} {i : Nat} {t : Token}
    (hopener : t.isOpener = false) (hcloser : t.isCloser = false) (rest : List Token) :
    bracketPairsFrom opened i (t :: rest) = bracketPairsFrom opened (i + 1) rest := by
  simp [bracketPairsFrom, hopener, hcloser]

theorem bracketPairsFrom_closer {opened : List (Nat × Text)} {i k : Nat} {o c : Token}
    (h : o.Pairs c) (rest : List Token) :
    bracketPairsFrom ((k, o.text) :: opened) i (c :: rest) =
      (k, i) :: bracketPairsFrom opened (i + 1) rest := by
  simp [bracketPairsFrom, Token.isOpener_eq_false_of_isCloser h.isCloser, h.isCloser, h.2.2]

namespace Encloses

variable {tokens : List Token} {i j : Nat}

theorem append_left (h : Encloses tokens i j) (front : List Token) :
    Encloses (front ++ tokens) (front.length + i) (front.length + j) := by
  obtain ⟨before, o, inner, c, after, rfl, rfl, rfl, hpair, hinner⟩ := h
  refine ⟨front ++ before, o, inner, c, after, ?_, ?_, ?_, hpair, hinner⟩
  · rw [List.append_assoc]
  · rw [List.length_append]
  · omega

theorem append_right (h : Encloses tokens i j) (behind : List Token) :
    Encloses (tokens ++ behind) i j := by
  obtain ⟨before, o, inner, c, after, rfl, hi, hj, hpair, hinner⟩ := h
  exact ⟨before, o, inner, c, after ++ behind, by simp, hi, hj, hpair, hinner⟩

end Encloses

/-- Tokens close all brackets that they open, and no others. -/
def KeepStack (tokens : List Token) : Prop :=
  ∀ opened i rest, bracketPairsFrom opened i (tokens ++ rest) =
    bracketPairsFrom [] i tokens ++ bracketPairsFrom opened (i + tokens.length) rest

/-- The pairs inside an enclosing pair are found first, and then the enclosing one. -/
theorem KeepStack.enclose {o c : Token} {inner : List Token} (h : KeepStack inner) (hpair : o.Pairs c)
    (opened : List (Nat × Text)) (i : Nat) (rest : List Token) :
    bracketPairsFrom opened i (o :: (inner ++ c :: rest)) =
      bracketPairsFrom [] (i + 1) inner ++
        (i, i + 1 + inner.length) :: bracketPairsFrom opened (i + 1 + inner.length + 1) rest := by
  rw [bracketPairsFrom_opener hpair.isOpener, h, bracketPairsFrom_closer hpair]

theorem WellNested.keepStack {tokens : List Token} (h : WellNested tokens) : KeepStack tokens := by
  induction h with
  | nil => exact fun opened i rest => rfl
  | @other t rest hopener hcloser _ ih =>
    intro opened i behind
    rw [List.cons_append, bracketPairsFrom_other hopener hcloser,
      bracketPairsFrom_other hopener hcloser, ih, List.length_cons, Nat.add_assoc, Nat.add_comm 1]
  | @enclose o c inner rest hpair _ _ ihinner ihrest =>
    intro opened i behind
    have hlength : i + (o :: (inner ++ c :: rest)).length =
        i + 1 + inner.length + 1 + rest.length := by
      simp only [List.length_cons, List.length_append]
      omega
    rw [List.cons_append, List.append_assoc, List.cons_append, ihinner.enclose hpair, ihrest,
      ihinner.enclose hpair, hlength, List.append_assoc, List.cons_append]

/-- Every bracket of well-nested tokens is paired. -/
theorem WellNested.exists_pair {tokens : List Token} (h : WellNested tokens) :
    ∀ i k t, tokens[k]? = some t → t.isOpener = true ∨ t.isCloser = true →
      ∃ p ∈ bracketPairsFrom [] i tokens, p.1 = i + k ∨ p.2 = i + k := by
  induction h with
  | nil => exact fun i k t ht => nomatch ht
  | @other t rest hopener hcloser _ ih =>
    intro i k u hu hbracket
    rw [bracketPairsFrom_other hopener hcloser]
    rcases k with _ | k
    · obtain rfl := Option.some.inj hu
      simp [hopener, hcloser] at hbracket
    · rw [List.getElem?_cons_succ] at hu
      obtain ⟨p, hp, hpk⟩ := ih (i + 1) k u hu hbracket
      exact ⟨p, hp, by omega⟩
  | @enclose o c inner rest hpair hinner _ ihinner ihrest =>
    intro i k t ht hbracket
    rw [hinner.keepStack.enclose hpair]
    rcases k with _ | k
    · exact ⟨_, List.mem_append_right _ List.mem_cons_self, Or.inl rfl⟩
    rw [List.getElem?_cons_succ] at ht
    rcases Nat.lt_or_ge k inner.length with hk | hk
    · rw [List.getElem?_append_left hk] at ht
      obtain ⟨p, hp, hpk⟩ := ihinner (i + 1) k t ht hbracket
      exact ⟨p, List.mem_append_left _ hp, by omega⟩
    · rw [List.getElem?_append_right hk] at ht
      obtain ⟨d, rfl⟩ := Nat.exists_eq_add_of_le hk
      rw [Nat.add_sub_cancel_left] at ht
      rcases d with _ | d
      · exact ⟨_, List.mem_append_right _ List.mem_cons_self, Or.inr (by simp only; omega)⟩
      · rw [List.getElem?_cons_succ] at ht
        obtain ⟨p, hp, hpk⟩ := ihrest (i + 1 + inner.length + 1) d t ht hbracket
        exact ⟨p, List.mem_append_right _ (List.mem_cons_of_mem _ hp), by omega⟩

/-- The brackets of a pair of well-nested tokens enclose well-nested tokens. -/
theorem WellNested.encloses {tokens : List Token} (h : WellNested tokens) :
    ∀ i, ∀ p ∈ bracketPairsFrom [] i tokens, ∃ a b, p = (i + a, i + b) ∧ Encloses tokens a b := by
  induction h with
  | nil => exact fun i p hp => absurd hp List.not_mem_nil
  | @other t rest hopener hcloser _ ih =>
    intro i p hp
    rw [bracketPairsFrom_other hopener hcloser] at hp
    obtain ⟨a, b, rfl, hab⟩ := ih (i + 1) p hp
    refine ⟨1 + a, 1 + b, ?_, hab.append_left [t]⟩
    rw [Nat.add_assoc, Nat.add_assoc]
  | @enclose o c inner rest hpair hinner _ ihinner ihrest =>
    intro i p hp
    rw [hinner.keepStack.enclose hpair, List.mem_append, List.mem_cons] at hp
    rcases hp with hp | rfl | hp
    · obtain ⟨a, b, rfl, hab⟩ := ihinner (i + 1) p hp
      refine ⟨1 + a, 1 + b, ?_, (hab.append_right (c :: rest)).append_left [o]⟩
      rw [Nat.add_assoc, Nat.add_assoc]
    · refine ⟨0, 0 + inner.length + 1, ?_, [], o, inner, c, rest, rfl, rfl, rfl, hpair, hinner⟩
      simp only [Prod.mk.injEq]
      omega
    · obtain ⟨a, b, rfl, hab⟩ := ihrest (i + 1 + inner.length + 1) p hp
      have henclosed := hab.append_left (o :: (inner ++ [c]))
      have hlength : (o :: (inner ++ [c])).length = inner.length + 2 := by simp
      rw [hlength] at henclosed
      refine ⟨inner.length + 2 + a, inner.length + 2 + b, ?_, by simpa using henclosed⟩
      rw [Prod.mk.injEq]
      omega

/-- Two brackets that enclose well-nested tokens are paired, whatever stands around them. -/
theorem Encloses.mem_bracketPairs {tokens : List Token} {i j : Nat} (h : Encloses tokens i j) :
    (i, j) ∈ bracketPairs tokens := by
  obtain ⟨before, o, inner, c, after, rfl, rfl, rfl, hpair, hinner⟩ := h
  obtain ⟨pairs, opened, hbefore, -⟩ :=
    (Paired.nil _).run before (o :: (inner ++ c :: after)) List.drop_zero
  rw [bracketPairs, hbefore, hinner.keepStack.enclose hpair]
  simp
  omega

/-- **Bracket pairing is a sound matching.** In the table of partners partners are mutual and distinct,
one of them is an opening bracket and the other one a later closing bracket of its type, no two pairs
cross, and an opening bracket inside a pair has its partner inside it. If the tokens are well-nested then
every bracket has a partner, and the partners are the brackets that enclose well-nested tokens. -/
theorem bracketPartners_isMatching (tokens : Array Token) :
    IsMatching tokens (bracketPartners tokens) ∧
      (WellNested tokens.toList →
        (∀ i t, tokens[i]? = some t → t.isOpener = true ∨ t.isCloser = true →
          ∃ j, ArePartners (bracketPartners tokens) i j) ∧
        ∀ i j, i < j →
          (ArePartners (bracketPartners tokens) i j ↔ Encloses tokens.toList i j)) := by
  refine ⟨isMatching_bracketPartners tokens, fun hnested => ⟨?_, ?_⟩⟩
  · intro i t ht hbracket
    rw [← Array.getElem?_toList] at ht
    obtain ⟨⟨a, b⟩, hab, hi⟩ := hnested.exists_pair 0 i t ht hbracket
    rw [Nat.zero_add] at hi
    rcases hi with rfl | rfl
    · exact ⟨b, arePartners_iff.2 (Or.inl hab)⟩
    · exact ⟨a, arePartners_iff.2 (Or.inr hab)⟩
  · intro i j hlt
    constructor
    · intro hij
      have hmem := mem_bracketPairs_of_arePartners hlt hij
      obtain ⟨a, b, hab, henclosed⟩ := hnested.encloses 0 _ hmem
      rw [Nat.zero_add, Nat.zero_add] at hab
      obtain ⟨rfl, rfl⟩ := Prod.mk.inj hab
      exact henclosed
    · intro henclosed
      exact arePartners_iff.2 (Or.inl henclosed.mem_bracketPairs)

/-! ### A call with a list in it -/

/-- The tokens of `f([")"])`, where the string holds a bracket. -/
def listTokens : Array Token :=
  let token (i : Nat) (kind : TokenKind) (text : Text) : Token :=
    ⟨⟨kind, text, ⟨1, i⟩, ⟨1, i + text.length⟩, []⟩, i, i, i + text.length⟩
  #[token 0 .name ['f'], token 1 .op ['('], token 2 .op ['['], token 3 .string ['"', ')', '"'],
    token 4 .op [']'], token 5 .op [')']]

theorem wellNested_listTokens : WellNested listTokens.toList := by
  have hstring : WellNested [listTokens[3]] := .other rfl rfl .nil
  have hlist : WellNested [listTokens[2], listTokens[3], listTokens[4]] :=
    .enclose ⟨rfl, rfl, rfl⟩ hstring .nil
  have hcall : WellNested [listTokens[1], listTokens[2], listTokens[3], listTokens[4],
      listTokens[5]] := .enclose ⟨rfl, rfl, rfl⟩ hlist .nil
  exact .other rfl rfl hcall

theorem bracketPartners_isMatching_listTokens :
    WellNested listTokens.toList ∧ ArePartners (bracketPartners listTokens) 1 5 ∧
      Encloses listTokens.toList 1 5 := by
  have hpartners : ArePartners (bracketPartners listTokens) 1 5 := by
    unfold ArePartners
    decide +kernel
  have h := (bracketPartners_isMatching listTokens).2 wellNested_listTokens
  exact ⟨wellNested_listTokens, hpartners, (h.2 1 5 (by decide)).1 hpartners⟩

end SourceSpans
