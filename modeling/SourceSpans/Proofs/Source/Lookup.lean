import SourceSpans.Source.Navigation
import SourceSpans.Proofs.Source.Faithful
import SourceSpans.Proofs.Text.Positions

/-!
# The token at a place

A token is looked up by a byte offset, or by a position, whose offset is taken. The search halves the
tokens, of which neighbours may start at one offset: tokens without a text stand at the edge of others.

* **Halving** (`lt_border_iff`): what is found is the border of a property of a beginning of the indices.
  The invariant is that the property holds of all indices before those that are left, and of none after
  them.
* **Offsets** (`Source.InOrder.tokenAtOffset?_cases`): the token found is the last one that starts at the
  offset or before. It holds the offset if any token does (`Source.InOrder.tokenAtOffset?_of_holds`).
* **Positions** (`Source.holds_of_position`): a position in a token, on whichever of its lines, has
  an offset in the token.
-/

namespace SourceSpans

/-! ### Halving -/

variable {p : Nat → Bool}

/-- The border lies where the property stops to hold. -/
theorem lt_borderFrom_iff (hp : ∀ i j, i ≤ j → p j = true → p i = true) {base size i : Nat}
    (hbefore : ∀ i < base, p i = true) (hafter : ∀ i, base + size ≤ i → p i = false) :
    i < borderFrom p base size ↔ p i = true := by
  fun_induction borderFrom p base size with
  | case1 base size hsize hbase =>
    constructor
    · intro hi
      exact hp i base (by omega) hbase.2
    · intro hi
      by_contra hle
      rw [hafter i (by omega)] at hi
      cases hi
  | case2 base size hsize hbase =>
    refine ⟨hbefore i, fun hi => ?_⟩
    by_contra hle
    have hpbase := hp base i (by omega) hi
    -- the property holds of the index that is left, if one is
    have hzero : size = 0 := by
      by_contra hne
      exact hbase ⟨by omega, hpbase⟩
    rw [hafter i (by omega)] at hi
    cases hi
  | case3 base size hsize ih =>
    apply ih
    · intro j hj
      split_ifs at hj with hmid
      · exact hp j _ hj.le hmid
      · exact hbefore j hj
    · intro j hj
      split_ifs at hj with hmid
      · exact hafter j (by omega)
      · by_contra hpj
        rw [Bool.not_eq_false] at hpj
        exact hmid (hp _ j (by omega) hpj)

/-- A property that holds of a beginning of the indices below `n` holds below its border. -/
theorem lt_border_iff {n : Nat} (hp : ∀ i j, i ≤ j → p j = true → p i = true)
    (hafter : ∀ i, n ≤ i → p i = false) {i : Nat} : i < border p n ↔ p i = true :=
  lt_borderFrom_iff hp (fun i hi => absurd hi (Nat.not_lt_zero i)) fun i hi => hafter i (by omega)

/-- An offset lies in a token: not before its start, and before its stop. -/
structure Token.Holds (a : Token) (o : Nat) : Prop where
  start_le : a.startOffset ≤ o
  lt_stop : o < a.stopOffset

namespace Source

variable {s : Source} {i j o : Nat} {a b : Token}

/-! ### Tokens in order -/

theorem startOffset_eq (ha : s.tokens[i]? = some a) : s.startOffset i = a.startOffset := by
  rw [startOffset, ha]

theorem stopOffset_eq (ha : s.tokens[i]? = some a) : s.stopOffset i = a.stopOffset := by
  rw [stopOffset, ha]

theorem lt_size_of_getElem? (ha : s.tokens[i]? = some a) : i < s.size :=
  (Array.getElem?_eq_some_iff.1 ha).1

theorem InOrder.start_le_stop (h : s.InOrder) (ha : s.tokens[i]? = some a) :
    a.startOffset ≤ a.stopOffset := by
  have hle := (h i (lt_size_of_getElem? ha)).1
  rwa [startOffset_eq ha, stopOffset_eq ha] at hle

/-- A token stops where a later one starts or before. -/
theorem InOrder.stop_le_start (h : s.InOrder) (ha : s.tokens[i]? = some a)
    (hb : s.tokens[j]? = some b) (hij : i < j) : a.stopOffset ≤ b.startOffset := by
  have hj := lt_size_of_getElem? hb
  have hle := h.edgeOffset_le (a := 2 * i + 1) (b := 2 * j) (by omega) (by omega)
  rwa [edgeOffset_two_mul_add_one, edgeOffset_two_mul, stopOffset_eq ha, startOffset_eq hb] at hle

theorem InOrder.start_le_start (h : s.InOrder) (ha : s.tokens[i]? = some a)
    (hb : s.tokens[j]? = some b) (hij : i ≤ j) : a.startOffset ≤ b.startOffset := by
  rcases hij.eq_or_lt with rfl | hlt
  · rw [Option.some.inj (ha.symm.trans hb)]
  · exact (h.start_le_stop ha).trans (h.stop_le_start ha hb hlt)

/-! ### Offsets -/

/-- The tokens before the border are those that start at the offset or before. -/
theorem InOrder.lt_border_iff (h : s.InOrder) :
    i < border (s.holdsAt fun t => t.startOffset ≤ o) s.size ↔
      ∃ a, s.tokens[i]? = some a ∧ a.startOffset ≤ o := by
  have hiff : ∀ k, (s.holdsAt fun t => t.startOffset ≤ o) k = true ↔
      ∃ a, s.tokens[k]? = some a ∧ a.startOffset ≤ o := by
    intro k
    rw [holdsAt_eq_true_iff]
    simp only [decide_eq_true_eq]
  rw [SourceSpans.lt_border_iff, hiff]
  · intro k l hkl hl
    rw [hiff] at hl ⊢
    obtain ⟨b, hb, hstart⟩ := hl
    have hk : k < s.tokens.size := hkl.trans_lt (lt_size_of_getElem? hb)
    have hget : s.tokens[k]? = some s.tokens[k] := Array.getElem?_eq_getElem hk
    exact ⟨_, hget, (h.start_le_start hget hb hkl).trans hstart⟩
  · intro k hk
    rw [Bool.eq_false_iff, ne_eq, hiff]
    rintro ⟨a, ha, -⟩
    exact absurd (lt_size_of_getElem? ha) (Nat.not_lt.2 hk)

/-- **The token found is the last one that starts at the offset or before**, and there is none if all
start later. -/
theorem InOrder.tokenAtOffset?_cases (h : s.InOrder) (o : Nat) :
    (s.tokenAtOffset? o = none ∧ ∀ (i : Nat) (a : Token), s.tokens[i]? = some a → o < a.startOffset) ∨
      ∃ (i : Nat) (a : Token), s.tokenAtOffset? o = some a ∧ s.tokens[i]? = some a ∧
        a.startOffset ≤ o ∧
        ∀ (j : Nat) (b : Token), s.tokens[j]? = some b → b.startOffset ≤ o → j ≤ i := by
  have hborder : ∀ i, i < border (s.holdsAt fun t => t.startOffset ≤ o) s.size ↔
      ∃ a, s.tokens[i]? = some a ∧ a.startOffset ≤ o := fun i => h.lt_border_iff
  unfold tokenAtOffset?
  generalize border (s.holdsAt fun t => t.startOffset ≤ o) s.size = n at hborder
  rcases n with _ | k
  · refine Or.inl ⟨rfl, fun i a ha => ?_⟩
    by_contra hle
    exact Nat.not_lt_zero i ((hborder i).2 ⟨a, ha, Nat.not_lt.1 hle⟩)
  · obtain ⟨a, ha, hstart⟩ := (hborder k).1 (Nat.lt_succ_self k)
    refine Or.inr ⟨k, a, ha, ha, hstart, fun j b hb hb' => ?_⟩
    exact Nat.lt_succ_iff.1 ((hborder j).2 ⟨b, hb, hb'⟩)

/-- A token that holds an offset is the last one that starts there or before. -/
theorem InOrder.le_of_holds (h : s.InOrder) (ha : s.tokens[i]? = some a) (ho : a.Holds o)
    (hb : s.tokens[j]? = some b) (hstart : b.startOffset ≤ o) : j ≤ i := by
  by_contra hlt
  have hle := h.stop_le_start ha hb (Nat.not_le.1 hlt)
  exact absurd ho.lt_stop (Nat.not_lt.2 (hle.trans hstart))

/-- **A token that holds an offset is found there.** -/
theorem InOrder.tokenAtOffset?_of_holds (h : s.InOrder) (ha : s.tokens[i]? = some a)
    (ho : a.Holds o) : s.tokenAtOffset? o = some a := by
  rcases h.tokenAtOffset?_cases o with ⟨-, hall⟩ | ⟨k, c, hfound, hc, hstart, hlast⟩
  · exact absurd ho.start_le (Nat.not_le.2 (hall i a ha))
  · have hik := hlast i a ha ho.start_le
    have hki := h.le_of_holds ha ho hc hstart
    obtain rfl : i = k := by omega
    rw [hfound, ← ha, hc]

/-- No two tokens hold the same offset. -/
theorem InOrder.eq_of_holds (h : s.InOrder) (ha : a ∈ s.tokens) (hb : b ∈ s.tokens)
    (hoa : a.Holds o) (hob : b.Holds o) : b = a := by
  obtain ⟨i, ha⟩ := Array.mem_iff_getElem?.1 ha
  obtain ⟨j, hb⟩ := Array.mem_iff_getElem?.1 hb
  have hfound := h.tokenAtOffset?_of_holds ha hoa
  rw [h.tokenAtOffset?_of_holds hb hob] at hfound
  exact Option.some.inj hfound

/-- **Where no token holds an offset**, the one found is the last that starts there or before, and it has
stopped by then. -/
theorem InOrder.tokenAtOffset?_eq_some_iff (h : s.InOrder)
    (hindex : ∀ (i : Nat) (a : Token), s.tokens[i]? = some a → a.index = i)
    (hnone : ∀ a ∈ s.tokens, ¬ a.Holds o) :
    s.tokenAtOffset? o = some a ↔ a ∈ s.tokens ∧ a.startOffset ≤ o ∧ a.stopOffset ≤ o ∧
      ∀ b ∈ s.tokens, b.startOffset ≤ o → b.index ≤ a.index := by
  rcases h.tokenAtOffset?_cases o with ⟨hfound, hall⟩ | ⟨i, c, hfound, hc, hcstart, hlast⟩
  · rw [hfound]
    refine iff_of_false nofun ?_
    rintro ⟨ha, hstart, -⟩
    obtain ⟨i, ha⟩ := Array.mem_iff_getElem?.1 ha
    exact absurd hstart (Nat.not_le.2 (hall i a ha))
  have hmemc : c ∈ s.tokens := Array.mem_iff_getElem?.2 ⟨i, hc⟩
  rw [hfound, Option.some.injEq]
  constructor
  · rintro rfl
    refine ⟨hmemc, hcstart, ?_, fun b hb hbstart => ?_⟩
    · by_contra hlt
      exact hnone c hmemc ⟨hcstart, Nat.not_le.1 hlt⟩
    · obtain ⟨j, hb⟩ := Array.mem_iff_getElem?.1 hb
      rw [hindex i c hc, hindex j b hb]
      exact hlast j b hb hbstart
  · rintro ⟨ha, hstart, -, hlatest⟩
    obtain ⟨j, ha⟩ := Array.mem_iff_getElem?.1 ha
    have hji := hlast j a ha hstart
    have hij := hlatest c hmemc hcstart
    rw [hindex i c hc, hindex j a ha] at hij
    obtain rfl : i = j := by omega
    exact Option.some.inj (hc.symm.trans ha)

/-- **No token is found before the first one**, and only there. -/
theorem InOrder.tokenAtOffset?_eq_none_iff (h : s.InOrder) (hpos : 0 < s.size) :
    s.tokenAtOffset? o = none ↔ ∃ a, s.tokens[0]? = some a ∧ o < a.startOffset := by
  rcases h.tokenAtOffset?_cases o with ⟨hfound, hall⟩ | ⟨i, c, hfound, hc, hcstart, -⟩
  · refine iff_of_true hfound ?_
    have hfirst := Array.getElem?_eq_getElem hpos
    exact ⟨_, hfirst, hall 0 _ hfirst⟩
  · rw [hfound]
    refine iff_of_false nofun ?_
    rintro ⟨a, ha, hlt⟩
    have hle := h.start_le_start ha hc (Nat.zero_le i)
    omega

/-! ### Positions -/

variable {t : Text}

/-- **The offset of a position in a token lies in the token.** -/
theorem holds_of_position (ha : a.FaithfulTo t) {p : Position} (hp : t.HasPosition p)
    (hstart : a.start.le p = true) (hstop : p.lt a.stop = true) : a.Holds (t.offset p) := by
  obtain ⟨u, ⟨v, rfl⟩, rfl⟩ := hp.isPlace
  have hu : u <+: u ++ v := List.prefix_append u v
  -- the start and the stop are the positions after two other beginnings of the text
  have hedge : ∀ {o : Nat} {q : Position}, Text.isBoundary (u ++ v) o = true →
      Text.position? (u ++ v) o = some q →
      ∃ w, w <+: u ++ v ∧ Text.size w = o ∧ Position.start.advance w = q := by
    intro o q ho hq
    obtain ⟨w, w', h, rfl⟩ := Text.isBoundary_iff.1 ho
    rw [h, Text.position?_size] at hq
    exact ⟨w, ⟨w', h.symm⟩, rfl, Option.some.inj hq⟩
  obtain ⟨x, hx, hxsize, hxstart⟩ := hedge ha.isBoundary_start ha.position?_start
  obtain ⟨y, hy, hysize, hystop⟩ := hedge ha.isBoundary_stop ha.position?_stop
  rw [Text.offset_advance]
  refine ⟨?_, ?_⟩
  · rw [← hxsize, ← Nat.not_lt, Text.size_lt_size_iff hu hx, hxstart, Bool.not_eq_true,
      Position.not_lt]
    exact hstart
  · rw [← hysize, Text.size_lt_size_iff hu hy, hystop]
    exact hstop

/-- **The token at a place.** In a source that was read from a text, the one token that holds an offset is
found there. If no token does, the one found is the last that starts there or before, and it has stopped
by then. None is found before the first token, and only there. At each position of the text from the start
of a token on and before its stop, this token is found. -/
theorem token_at_place (h : ofText? t = .ok s) :
    (∀ o, (∀ a ∈ s.tokens, a.Holds o →
        s.tokenAtOffset? o = some a ∧ ∀ b ∈ s.tokens, b.Holds o → b = a) ∧
      ((∀ a ∈ s.tokens, ¬ a.Holds o) → ∀ a, s.tokenAtOffset? o = some a ↔
        a ∈ s.tokens ∧ a.startOffset ≤ o ∧ a.stopOffset ≤ o ∧
          ∀ b ∈ s.tokens, b.startOffset ≤ o → b.index ≤ a.index) ∧
      (s.tokenAtOffset? o = none ↔ ∃ a, s.tokens[0]? = some a ∧ o < a.startOffset)) ∧
    ∀ a ∈ s.tokens, ∀ p, t.HasPosition p → a.start.le p = true → p.lt a.stop = true →
      s.tokenAt? p = some a := by
  have horder := inOrder_of_ofText? h
  refine ⟨fun o => ⟨fun a ha ho => ?_, fun hnone a => ?_, ?_⟩, fun a ha p hp hstart hstop => ?_⟩
  · obtain ⟨i, hget⟩ := Array.mem_iff_getElem?.1 ha
    exact ⟨horder.tokenAtOffset?_of_holds hget ho, fun b hb hob => horder.eq_of_holds ha hb ho hob⟩
  · exact horder.tokenAtOffset?_eq_some_iff (fun i a ha => (faithfulTo_of_ofText? h ha).1) hnone
  · exact horder.tokenAtOffset?_eq_none_iff (size_pos_of_ofText? h)
  · obtain ⟨i, ha⟩ := Array.mem_iff_getElem?.1 ha
    have hfaithful := (faithfulTo_of_ofText? h ha).2
    rw [tokenAt?, text_of_ofText? h]
    exact horder.tokenAtOffset?_of_holds ha (holds_of_position hfaithful hp hstart hstop)

/-- A string of two lines is found from its second line. -/
theorem token_at_place_blockText :
    ofText? blockText = .ok (build blockText blockTokens) ∧
      (build blockText blockTokens).tokenAt? ⟨3, 1⟩ =
        some ⟨⟨.string, "'''\n'''".toList, ⟨2, 2⟩, ⟨3, 3⟩, "  '''\n".toList⟩, 4, 10, 17⟩ := by
  have h : ofText? blockText = .ok (build blockText blockTokens) := by decide +kernel
  have hposition : blockText.HasPosition ⟨3, 1⟩ := ⟨by decide, by decide, by decide⟩
  exact ⟨h, (token_at_place h).2 _ (by decide +kernel) ⟨3, 1⟩ hposition (by decide) (by decide)⟩

end Source

end SourceSpans
