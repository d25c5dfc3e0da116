import SourceSpans.Source.Navigation
import SourceSpans.Proofs.Sequences
import SourceSpans.Proofs.Source.Lookup
import Mathlib.Order.Defs.Unbundled

/-!
# Going from token to token

There are steps from a token to the next one and to the one before, searches both ways for a token of a
kind, and the list of the tokens from one to another. They agree on what lies between two tokens
(`Source.navigation_agrees`).

What lies ahead is told by an order of the indices, `<` on the way forward and `>` on the way back. So the
two ways are one as soon as it is known what a search finds.

* **Searches** (`Source.Numbered.finds_up`, `Source.Numbered.finds_down`): the token found is the nearest
  one with a property, for tokens know their indices.
* **Steps** (`Source.StepsBy`): a step goes to the nearest token ahead that is met.
* **Walks** (`Source.StepsBy.mem_iff`, `Source.StepsBy.pairwise`): one step after the other meets exactly
  the tokens ahead, in order.
* **Between two tokens** (`Source.Numbered.isWayFrom_between`): these tokens are in order as well, and a
  list in order is told by its members.
-/

namespace SourceSpans

section walks

variable {α : Type} {step : α → Option α} {within : α → Prop}

/-- What is met when one goes on by one step after the other, up to a step that leads nowhere or out of
bounds. -/
inductive Meets (step : α → Option α) (within : α → Prop) : α → List α → Prop
  | stop {a : α} (h : ∀ b, step a = some b → ¬ within b) : Meets step within a []
  | go {a b : α} {l : List α} (h : step a = some b) (hb : within b) (hl : Meets step within b l) :
      Meets step within a (b :: l)

/-- A walk comes to an end if every step lowers a rank. -/
theorem exists_meets {inside : α → Prop} (rank : α → Nat)
    (hstep : ∀ a b, inside a → step a = some b → inside b ∧ rank b < rank a) {a : α} (ha : inside a) :
    ∃ l, Meets step within a l := by
  induction hrank : rank a using Nat.strong_induction_on generalizing a with
  | h n ih =>
    by_cases hgo : ∃ b, step a = some b ∧ within b
    · obtain ⟨b, hb, hwithin⟩ := hgo
      obtain ⟨hinside, hlt⟩ := hstep a b ha hb
      obtain ⟨l, hl⟩ := ih (rank b) (hrank ▸ hlt) hinside rfl
      exact ⟨b :: l, .go hb hwithin hl⟩
    · exact ⟨[], .stop fun b hb hwithin => hgo ⟨b, hb, hwithin⟩⟩

/-- A list is a way from a place: the place itself, if it is to be met, and then all that is met when one
goes on from there. -/
def IsWayFrom (met : α → Bool) (step : α → Option α) (within : α → Prop) (a : α) (way : List α) : Prop :=
  ∃ l, way = [a].filter met ++ l ∧ ∀ l', Meets step within a l' ↔ l' = l

end walks

theorem Token.fits_iff {a : Token} {kind : TokenKind} {text? : Option Text} :
    a.fits kind text? = true ↔ a.kind = kind ∧ ∀ w, text? = some w → a.text = w := by
  unfold fits
  rw [Bool.and_eq_true, beq_iff_eq]
  refine and_congr_right fun _ => ?_
  rcases text? with _ | w
  · exact iff_of_true rfl nofun
  · simp only [beq_iff_eq, Option.some.injEq, forall_eq']

namespace Source

variable {s : Source} {t : Text} {raw : List RawToken} {a b c : Token}

/-! ### Tokens know their indices -/

/-- Every token has the index of its place. -/
def Numbered (s : Source) : Prop := ∀ (i : Nat) (a : Token), s.tokens[i]? = some a → a.index = i

theorem numbered_of_ofTokens? (h : ofTokens? t raw = .ok s) : s.Numbered := by
  intro i a ha
  obtain ⟨joined, -, rfl⟩ := exists_of_ofTokens? h
  rw [getElem?_build] at ha
  obtain ⟨b, -, rfl⟩ := Option.map_eq_some_iff.1 ha
  rfl

theorem numbered_of_ofText? (h : ofText? t = .ok s) : s.Numbered := by
  obtain ⟨raw, -, hs⟩ := bind_eq_ok h
  exact numbered_of_ofTokens? hs

namespace Numbered

variable (h : s.Numbered)
include h

theorem getElem?_index (ha : a ∈ s.tokens) : s.tokens[a.index]? = some a := by
  obtain ⟨i, hi⟩ := Array.mem_iff_getElem?.1 ha
  rwa [h i a hi]

theorem index_lt_size (ha : a ∈ s.tokens) : a.index < s.size :=
  lt_size_of_getElem? (h.getElem?_index ha)

theorem eq_of_index_eq (ha : a ∈ s.tokens) (hb : b ∈ s.tokens) (hindex : a.index = b.index) :
    a = b := by
  have hget := h.getElem?_index ha
  rw [hindex, h.getElem?_index hb] at hget
  exact (Option.some.inj hget).symm

/-! ### Searches -/

theorem holdsAt_index (ha : a ∈ s.tokens) (r : Token → Bool) : s.holdsAt r a.index = r a :=
  holdsAt_eq (h.getElem?_index ha) r

/-- No index in a range has a property exactly if no token with an index in the range has it. -/
theorem forall_holdsAt_eq_false_iff {q : Nat → Prop} {r : Token → Bool} :
    (∀ i, q i → s.holdsAt r i = false) ↔ ∀ c ∈ s.tokens, ¬ (q c.index ∧ r c = true) := by
  constructor
  · rintro hall c hc ⟨hq, hr⟩
    rw [← h.holdsAt_index hc r, hall c.index hq] at hr
    cases hr
  · intro hall i hq
    rw [Bool.eq_false_iff, ne_eq, holdsAt_eq_true_iff]
    rintro ⟨c, hc, hr⟩
    obtain rfl := h i c hc
    exact hall c (Array.mem_iff_getElem?.2 ⟨_, hc⟩) ⟨hq, hr⟩

theorem bind_token?_eq_some_iff {found : Option Nat} :
    found.bind s.token? = some c ↔ c ∈ s.tokens ∧ found = some c.index := by
  rw [Option.bind_eq_some_iff]
  constructor
  · rintro ⟨i, hfound, hc⟩
    rw [h i c hc]
    exact ⟨Array.mem_iff_getElem?.2 ⟨i, hc⟩, hfound⟩
  · rintro ⟨hc, hfound⟩
    exact ⟨c.index, hfound, h.getElem?_index hc⟩

end Numbered

/-- The answer is the token with a property before which, in an order of the indices, no other such token
stands. There is no answer exactly if no token has the property. -/
structure Finds (s : Source) (lt : Nat → Nat → Prop) (p : Token → Prop) (answer : Option Token) :
    Prop where
  eq_some_iff : ∀ c, answer = some c ↔
    c ∈ s.tokens ∧ p c ∧ ∀ d ∈ s.tokens, p d → ¬ lt d.index c.index
  eq_none_iff : answer = none ↔ ∀ c ∈ s.tokens, ¬ p c

section searches

variable {r : Token → Bool} {lt : Nat → Nat → Prop} {found : Option Nat}

/-- The nearest index in a range with a property is the index of the nearest token. -/
theorem Numbered.finds_of_nearest (h : s.Numbered) (q : Nat → Prop)
    (hsome : ∀ j, found = some j ↔
      q j ∧ s.holdsAt r j = true ∧ ∀ k, q k ∧ lt k j → s.holdsAt r k = false)
    (hnone : found = none ↔ ∀ k, q k → s.holdsAt r k = false) :
    s.Finds lt (fun c => q c.index ∧ r c = true) (found.bind s.token?) := by
  constructor
  · intro c
    rw [h.bind_token?_eq_some_iff, hsome]
    refine and_congr_right fun hc => ?_
    rw [h.holdsAt_index hc, h.forall_holdsAt_eq_false_iff, and_assoc]
    have hnearer : (∀ d ∈ s.tokens, ¬ ((q d.index ∧ lt d.index c.index) ∧ r d = true)) ↔
        ∀ d ∈ s.tokens, q d.index ∧ r d = true → ¬ lt d.index c.index :=
      forall₂_congr fun d _ => by tauto
    rw [hnearer]
  · rw [← h.forall_holdsAt_eq_false_iff, ← hnone]
    rcases found with _ | j
    · exact iff_of_true rfl rfl
    · -- an index that was found is the index of a token
      obtain ⟨c, hc, -⟩ := holdsAt_eq_true_iff.1 ((hsome j).1 rfl).2.1
      have htoken : (some j).bind s.token? = some c := hc
      rw [htoken]
      exact iff_of_false nofun nofun

/-- **Going up, a search finds the token with the least index.** -/
theorem Numbered.finds_up (h : s.Numbered) (r : Token → Bool) (i : Nat) :
    s.Finds (· < ·) (fun c => i ≤ c.index ∧ r c = true)
      ((findUp (s.holdsAt r) i s.size).bind s.token?) := by
  apply h.finds_of_nearest (i ≤ ·)
  · intro j
    rw [findUp_eq_some_iff]
    constructor
    · rintro ⟨hij, -, hj, hall⟩
      exact ⟨hij, hj, fun k hk => hall k hk.1 hk.2⟩
    · rintro ⟨hij, hj, hall⟩
      exact ⟨hij, lt_size_of_holdsAt hj, hj, fun k hik hkj => hall k ⟨hik, hkj⟩⟩
  · rw [findUp_eq_none_iff]
    refine forall₂_congr fun k _ => ⟨fun hk => ?_, fun hk _ => hk⟩
    -- past the last token nothing holds
    exact Bool.eq_false_iff.2 fun hp => Bool.eq_false_iff.1 (hk (lt_size_of_holdsAt hp)) hp

/-- **Going down, a search finds the token with the greatest index.** -/
theorem Numbered.finds_down (h : s.Numbered) (r : Token → Bool) (i : Nat) :
    s.Finds (· > ·) (fun c => c.index < i ∧ r c = true)
      ((findDown (s.holdsAt r) 0 i).bind s.token?) := by
  apply h.finds_of_nearest (· < i)
  · intro j
    rw [findDown_eq_some_iff]
    constructor
    · rintro ⟨-, hji, hj, hall⟩
      exact ⟨hji, hj, fun k hk => hall k hk.2 hk.1⟩
    · rintro ⟨hji, hj, hall⟩
      exact ⟨Nat.zero_le j, hji, hj, fun k hjk hki => hall k ⟨hki, hjk⟩⟩
  · rw [findDown_eq_none_iff]
    exact forall_congr' fun k => ⟨fun hk => hk (Nat.zero_le k), fun hk _ => hk⟩

end searches

/-! ### Walks -/

/-- A step goes to the nearest token ahead that is met, in an order of the indices. -/
def StepsBy (s : Source) (lt : Nat → Nat → Prop) (met : Token → Bool)
    (step : Token → Option Token) : Prop :=
  ∀ a ∈ s.tokens, s.Finds lt (fun c => lt a.index c.index ∧ met c = true) (step a)

theorem Numbered.stepsBy_next (h : s.Numbered) (includeExtra : Bool) :
    s.StepsBy (· < ·) (isMet includeExtra) (s.next? · includeExtra) :=
  fun a _ => h.finds_up (isMet includeExtra) (a.index + 1)

theorem Numbered.stepsBy_previous (h : s.Numbered) (includeExtra : Bool) :
    s.StepsBy (· > ·) (isMet includeExtra) (s.previous? · includeExtra) := by
  intro a ha
  show s.Finds _ _ (s.previous? a includeExtra)
  rw [previous?, if_pos (h.index_lt_size ha).le]
  exact h.finds_down (isMet includeExtra) a.index

namespace StepsBy

variable {lt : Nat → Nat → Prop} {met : Token → Bool} {step : Token → Option Token}
  {within : Token → Prop} {l : List Token}

/-- From a token of the source a step leads to a token ahead. -/
theorem mem_and_lt (hstep : s.StepsBy lt met step) (ha : a ∈ s.tokens) (hb : step a = some b) :
    b ∈ s.tokens ∧ lt a.index b.index ∧ met b = true := by
  obtain ⟨hmem, ⟨hlt, hmet⟩, -⟩ := ((hstep a ha).eq_some_iff b).1 hb
  exact ⟨hmem, hlt, hmet⟩

variable [IsStrictTotalOrder Nat lt]

/-- What is met ahead of a token is the token to which a step leads and what is met ahead of that one. -/
theorem ahead_iff (hstep : s.StepsBy lt met step) (h : s.Numbered) (ha : a ∈ s.tokens)
    (hb : step a = some b) (hc : c ∈ s.tokens) (hmet : met c = true) :
    lt a.index c.index ↔ c = b ∨ lt b.index c.index := by
  obtain ⟨hmem, ⟨hlt, -⟩, hnearest⟩ := ((hstep a ha).eq_some_iff b).1 hb
  constructor
  · intro hac
    rcases trichotomous (r := lt) b.index c.index with hbc | heq | hcb
    · exact Or.inr hbc
    · exact Or.inl (h.eq_of_index_eq hc hmem heq.symm)
    · exact absurd hcb (hnearest c hc ⟨hac, hmet⟩)
  · rintro (rfl | hbc)
    · exact hlt
    · exact IsTrans.trans _ _ _ hlt hbc

variable (hstep : s.StepsBy lt met step) (h : s.Numbered)
  (hwithin : ∀ b c : Token, lt b.index c.index → within c → within b)
include hstep h hwithin

/-- **A walk meets exactly what lies ahead within bounds.** -/
theorem mem_iff (ha : a ∈ s.tokens) (hwalk : Meets step within a l) :
    c ∈ l ↔ c ∈ s.tokens ∧ lt a.index c.index ∧ met c = true ∧ within c := by
  induction hwalk with
  | @stop a hstop =>
    refine iff_of_false List.not_mem_nil ?_
    rintro ⟨hc, hlt, hmet, hin⟩
    rcases hb : step a with _ | b
    · exact ((hstep a ha).eq_none_iff.1 hb) c hc ⟨hlt, hmet⟩
    · -- what lies within bounds cannot lie at or behind the first that does not
      rcases (hstep.ahead_iff h ha hb hc hmet).1 hlt with rfl | hbc
      · exact hstop c hb hin
      · exact hstop b hb (hwithin b c hbc hin)
  | @go a b l hb hin _ ih =>
    obtain ⟨hmem, hlt, hmet⟩ := hstep.mem_and_lt ha hb
    rw [List.mem_cons, ih hmem]
    constructor
    · rintro (rfl | ⟨hc, hbc, hmetc, hinc⟩)
      · exact ⟨hmem, hlt, hmet, hin⟩
      · exact ⟨hc, (hstep.ahead_iff h ha hb hc hmetc).2 (Or.inr hbc), hmetc, hinc⟩
    · rintro ⟨hc, hac, hmetc, hinc⟩
      rcases (hstep.ahead_iff h ha hb hc hmetc).1 hac with heq | hbc
      · exact Or.inl heq
      · exact Or.inr ⟨hc, hbc, hmetc, hinc⟩

/-- **A walk goes in order.** -/
theorem pairwise (ha : a ∈ s.tokens) (hwalk : Meets step within a l) :
    l.Pairwise fun b c => lt b.index c.index := by
  induction hwalk with
  | stop => exact .nil
  | @go a b l hb _ hwalk ih =>
    have hmem := (hstep.mem_and_lt ha hb).1
    exact List.pairwise_cons.2
      ⟨fun c hc => ((hstep.mem_iff h hwithin hmem hwalk).1 hc).2.1, ih hmem⟩

/-- A list in order that holds what is met from a token on within bounds consists of this token, if it is
met, and of what a walk from it meets. -/
theorem eq_append {way : List Token} (hway : way.Pairwise fun b c => lt b.index c.index)
    (hmem : ∀ c, c ∈ way ↔ c ∈ s.tokens ∧ (c = a ∨ lt a.index c.index) ∧ met c = true ∧ within c)
    (ha : a ∈ s.tokens) (hin : within a) (hwalk : Meets step within a l) :
    way = [a].filter met ++ l := by
  have hahead : ∀ c, c ∈ l ↔ c ∈ s.tokens ∧ lt a.index c.index ∧ met c = true ∧ within c :=
    fun c => hstep.mem_iff h hwithin ha hwalk
  apply eq_of_pairwise (fun b c hbc hcb => irrefl (r := lt) _ (IsTrans.trans _ _ _ hbc hcb)) hway
  · refine List.pairwise_append.2
      ⟨(List.pairwise_singleton _ a).filter _, hstep.pairwise h hwithin ha hwalk, ?_⟩
    intro b hb c hc
    obtain rfl := List.mem_singleton.1 (List.mem_of_mem_filter hb)
    exact ((hahead c).1 hc).2.1
  · intro c
    rw [hmem, List.mem_append, List.mem_filter, List.mem_singleton, hahead]
    constructor
    · rintro ⟨hc, rfl | hlt, hmet, hinc⟩
      · exact Or.inl ⟨rfl, hmet⟩
      · exact Or.inr ⟨hc, hlt, hmet, hinc⟩
    · rintro (⟨rfl, hmet⟩ | ⟨hc, hlt, hmet, hinc⟩)
      · exact ⟨ha, Or.inl rfl, hmet, hin⟩
      · exact ⟨hc, Or.inr hlt, hmet, hinc⟩

/-- If the steps come to an end, such a list is a way from the token. -/
theorem isWayFrom (rank : Token → Nat)
    (hrank : ∀ b c, b ∈ s.tokens → c ∈ s.tokens → lt b.index c.index → rank c < rank b)
    {way : List Token} (hway : way.Pairwise fun b c => lt b.index c.index)
    (hmem : ∀ c, c ∈ way ↔ c ∈ s.tokens ∧ (c = a ∨ lt a.index c.index) ∧ met c = true ∧ within c)
    (ha : a ∈ s.tokens) (hin : within a) : IsWayFrom met step within a way := by
  have hends : ∃ l, Meets step within a l := by
    apply exists_meets rank (fun b c hb hc => ?_) ha
    obtain ⟨hmem, hlt, -⟩ := hstep.mem_and_lt hb hc
    exact ⟨hmem, hrank b c hb hmem hlt⟩
  obtain ⟨l, hl⟩ := hends
  have heq := hstep.eq_append h hwithin hway hmem ha hin hl
  refine ⟨l, heq, fun l' => ⟨fun hl' => ?_, ?_⟩⟩
  · have heq' := hstep.eq_append h hwithin hway hmem ha hin hl'
    exact List.append_cancel_left (heq'.symm.trans heq)
  · rintro rfl
    exact hl

end StepsBy

/-! ### The tokens between two tokens -/

theorem Numbered.pairwise_between (h : s.Numbered) (a b : Token) (includeExtra : Bool) :
    (s.between a b includeExtra).Pairwise fun c d => c.index < d.index := by
  have htokens : s.tokens.toList.Pairwise fun c d => c.index < d.index := by
    rw [List.pairwise_iff_getElem]
    intro i j hi hj hij
    rwa [h i _ (Array.getElem?_toList ▸ List.getElem?_eq_getElem hi),
      h j _ (Array.getElem?_toList ▸ List.getElem?_eq_getElem hj)]
  unfold between
  rw [Array.toList_extract, List.extract_eq_drop_take']
  exact (htokens.sublist ((List.drop_sublist _ _).trans (List.take_sublist _ _))).filter _

theorem Numbered.mem_between_iff (h : s.Numbered) (hb : b ∈ s.tokens) {includeExtra : Bool} :
    c ∈ s.between a b includeExtra ↔
      c ∈ s.tokens ∧ (a.index ≤ c.index ∧ c.index ≤ b.index) ∧ isMet includeExtra c = true := by
  have hlt := h.index_lt_size hb
  have hmin : min b.index (s.size - 1) = b.index := by omega
  unfold between
  rw [hmin, List.mem_filter, Array.mem_toList_iff, Array.mem_extract_iff_getElem, ← and_assoc]
  refine and_congr_left fun _ => ⟨?_, ?_⟩
  · rintro ⟨k, hk, rfl⟩
    have hindex := h _ _ (Array.getElem?_eq_getElem (show a.index + k < s.tokens.size by omega))
    rw [hindex]
    exact ⟨Array.getElem_mem _, Nat.le_add_right _ k, by omega⟩
  · rintro ⟨hc, hac, hcb⟩
    have hsize : c.index < s.tokens.size := h.index_lt_size hc
    refine ⟨c.index - a.index, by omega, ?_⟩
    have hget := h.getElem?_index hc
    rw [Array.getElem?_eq_getElem hsize] at hget
    simpa only [Nat.add_sub_cancel' hac] using Option.some.inj hget

theorem Numbered.eq_or_lt_iff (h : s.Numbered) (ha : a ∈ s.tokens) (hc : c ∈ s.tokens) :
    c = a ∨ a.index < c.index ↔ a.index ≤ c.index := by
  rw [le_iff_eq_or_lt]
  refine or_congr_left ⟨?_, fun heq => ?_⟩
  · rintro rfl
    rfl
  · exact h.eq_of_index_eq hc ha heq.symm

/-- **The tokens from one token to another are the way onwards.** -/
theorem Numbered.isWayFrom_between (h : s.Numbered) (ha : a ∈ s.tokens) (hb : b ∈ s.tokens)
    (hab : a.index ≤ b.index) (includeExtra : Bool) :
    IsWayFrom (isMet includeExtra) (s.next? · includeExtra) (·.index ≤ b.index) a
      (s.between a b includeExtra) := by
  refine (h.stepsBy_next includeExtra).isWayFrom h ?_ (fun c => s.size - c.index) ?_
    (h.pairwise_between a b includeExtra) ?_ ha hab
  · intro c d hcd hd
    exact hcd.le.trans hd
  · intro c d _ hd hcd
    have hlt := h.index_lt_size hd
    omega
  · intro c
    rw [h.mem_between_iff hb]
    refine and_congr_right fun hc => ?_
    rw [h.eq_or_lt_iff ha hc]
    tauto

/-- **The tokens from one token to another, last one first, are the way back.** -/
theorem Numbered.isWayFrom_reverse_between (h : s.Numbered) (hb : b ∈ s.tokens)
    (hab : a.index ≤ b.index) (includeExtra : Bool) :
    IsWayFrom (isMet includeExtra) (s.previous? · includeExtra) (a.index ≤ ·.index) b
      (s.between a b includeExtra).reverse := by
  refine (h.stepsBy_previous includeExtra).isWayFrom h ?_ Token.index ?_
    (List.pairwise_reverse.2 (h.pairwise_between a b includeExtra)) ?_ hb hab
  · intro c d hcd hd
    exact hd.trans hcd.le
  · intro c d _ _ hcd
    exact hcd
  · intro c
    rw [List.mem_reverse, h.mem_between_iff hb]
    refine and_congr_right fun hc => ?_
    rw [eq_comm (a := c), gt_iff_lt, h.eq_or_lt_iff hc hb]
    tauto

/-! ### Tokens of a kind -/

theorem Numbered.finds_find? (h : s.Numbered) (a : Token) (kind : TokenKind) (text? : Option Text) :
    s.Finds (· < ·) (fun c => a.index ≤ c.index ∧ c.kind = kind ∧ ∀ w, text? = some w → c.text = w)
      (s.find? a kind text?) := by
  have hfinds := h.finds_up (·.fits kind text?) a.index
  simp only [Token.fits_iff] at hfinds
  exact hfinds

theorem Numbered.finds_findBack? (h : s.Numbered) (ha : a ∈ s.tokens) (kind : TokenKind)
    (text? : Option Text) :
    s.Finds (· > ·) (fun c => c.index ≤ a.index ∧ c.kind = kind ∧ ∀ w, text? = some w → c.text = w)
      (s.findBack? a kind text?) := by
  have hfinds := h.finds_down (·.fits kind text?) (a.index + 1)
  simp only [Token.fits_iff, Nat.lt_succ_iff] at hfinds
  rw [findBack?, if_pos (h.index_lt_size ha)]
  exact hfinds

/-- **Going from token to token.** Take a source that was made from a text, or from a text and the tokens of
another tokenizer, and two of its tokens in order. The tokens from the one to the other are the way from the
one to the next token again and again, and taken backwards they are the way from the other one back; where
extras are left out, an end that is an extra is left out too. The first token of a kind from a token on, and
the last one up to it, are found, and nothing only if there is none. -/
theorem navigation_agrees (h : ofText? t = .ok s ∨ ∃ raw, ofTokens? t raw = .ok s) :
    (∀ a ∈ s.tokens, ∀ b ∈ s.tokens, a.index ≤ b.index → ∀ includeExtra,
      IsWayFrom (isMet includeExtra) (s.next? · includeExtra) (·.index ≤ b.index) a
        (s.between a b includeExtra) ∧
      IsWayFrom (isMet includeExtra) (s.previous? · includeExtra) (a.index ≤ ·.index) b
        (s.between a b includeExtra).reverse) ∧
    ∀ a ∈ s.tokens, ∀ kind text?,
      s.Finds (· < ·) (fun c => a.index ≤ c.index ∧ c.kind = kind ∧ ∀ w, text? = some w → c.text = w)
        (s.find? a kind text?) ∧
      s.Finds (· > ·) (fun c => c.index ≤ a.index ∧ c.kind = kind ∧ ∀ w, text? = some w → c.text = w)
        (s.findBack? a kind text?) := by
  have hnumbered : s.Numbered := by
    rcases h with h | ⟨raw, h⟩
    · exact numbered_of_ofText? h
    · exact numbered_of_ofTokens? h
  refine ⟨fun a ha b hb hab includeExtra => ⟨?_, ?_⟩, fun a ha kind text? => ⟨?_, ?_⟩⟩
  · exact hnumbered.isWayFrom_between ha hb hab includeExtra
  · exact hnumbered.isWayFrom_reverse_between hb hab includeExtra
  · exact hnumbered.finds_find? a kind text?
  · exact hnumbered.finds_findBack? ha kind text?

/-- A comment and a line break inside brackets. -/
def bracketedText : Text := "(  # a\n  x)\n".toList

/-- The tokens of `bracketedText`. -/
def bracketedTokens : List RawToken :=
  let first := "(  # a\n".toList
  let second := "  x)\n".toList
  [⟨.op, ['('], ⟨1, 0⟩, ⟨1, 1⟩, first⟩,
    ⟨.comment, "# a".toList, ⟨1, 3⟩, ⟨1, 6⟩, first⟩,
    ⟨.nl, ['\n'], ⟨1, 6⟩, ⟨2, 0⟩, first⟩,
    ⟨.name, ['x'], ⟨2, 2⟩, ⟨2, 3⟩, second⟩,
    ⟨.op, [')'], ⟨2, 3⟩, ⟨2, 4⟩, second⟩,
    ⟨.newline, ['\n'], ⟨2, 4⟩, ⟨3, 0⟩, second⟩,
    ⟨.endMarker, [], ⟨3, 0⟩, ⟨3, 0⟩, []⟩]

/-- Without extras, the way from the comment to the closing bracket leaves the comment out and meets the
name and the bracket. -/
theorem navigation_agrees_bracketedText :
    ofText? bracketedText = .ok (build bracketedText bracketedTokens) ∧
      ∃ comment name close, (build bracketedText bracketedTokens).tokens[1]? = some comment ∧
        (build bracketedText bracketedTokens).tokens[3]? = some name ∧
        (build bracketedText bracketedTokens).tokens[4]? = some close ∧
        comment.index ≤ close.index ∧
        Meets ((build bracketedText bracketedTokens).next? · false) (·.index ≤ close.index) comment
          [name, close] := by
  have h : ofText? bracketedText = .ok (build bracketedText bracketedTokens) := by decide +kernel
  refine ⟨h, _, _, _, rfl, rfl, rfl, by decide, ?_⟩
  obtain ⟨l, hway, hmeets⟩ := ((navigation_agrees (.inl h)).1 _ (Array.mem_iff_getElem?.2 ⟨1, rfl⟩) _
    (Array.mem_iff_getElem?.2 ⟨4, rfl⟩) (by decide) false).1
  -- the comment itself is filtered out, so that all between is met on the way
  exact (hmeets _).2 (Eq.trans (by decide +kernel) hway)

end Source

end SourceSpans
