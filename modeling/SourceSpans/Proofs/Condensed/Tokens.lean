import Mathlib.Data.Nat.Nth
import SourceSpans.Source.Navigation

/-!
# Sources without comments

Comments and line breaks inside a logical line are passed over. What is left of a source without them is
its condensed source, which knows the kinds and the texts of its tokens and nothing of their places
(`Source.condensed`).

* **Ranks**: the rank of an index is the number of indices before it that are not passed over
  (`Source.rank`), and `Source.nth` is the index with a given rank that is not passed over itself. These
  two are a Galois connection (`Source.lt_rank_iff`). Indices past the end are not passed over, so that
  each rank is taken.
* **Tokens** (`Source.holdsAt_condensed`): what a token of the condensed source is like, the token with
  this rank is like.
* **Searches** (`Source.findUp_eq`, `Source.findDown_eq`): a search for a token that is not passed over
  finds the token whose rank the same search finds in the condensed source.
-/

namespace SourceSpans

namespace Source

/-- Whether a token is a comment or a line break inside a logical line. -/
def isPassed (s : Source) (i : Nat) : Bool := s.holdsAt (fun t => t.kind.isNonCoding) i

/-- The number of indices before an index that are not passed over. -/
def rank (s : Source) (i : Nat) : Nat := Nat.count (fun j => s.isPassed j = false) i

/-- The index with a rank that is not passed over. -/
noncomputable def nth (s : Source) (k : Nat) : Nat := Nat.nth (fun j => s.isPassed j = false) k

/-- The kinds and the texts of the tokens that are not passed over. -/
def coding (s : Source) : List (TokenKind × Text) :=
  (s.tokens.toList.filter fun t => !t.kind.isNonCoding).map fun t => (t.kind, t.text)

/-- A token without a place. -/
def bareToken (kind : TokenKind) (text : Text) : Token :=
  ⟨⟨kind, text, Position.start, Position.start, []⟩, 0, 0, 0⟩

/-- A source of tokens with these kinds and texts, all without a place. -/
def ofCoding (coding : List (TokenKind × Text)) : Source where
  text := []
  tokens := (coding.map fun a => bareToken a.1 a.2).toArray

/-- The tokens that are not passed over, without their places. -/
def condensed (s : Source) : Source := ofCoding s.coding

variable {s : Source} {i k l : Nat}

/-! ### Ranks -/

theorem isPassed_eq {t : Token} (h : s.tokens[i]? = some t) : s.isPassed i = t.kind.isNonCoding :=
  holdsAt_eq h _

theorem isPassed_of_size_le (h : s.size ≤ i) : s.isPassed i = false := by
  unfold isPassed holdsAt
  rw [Array.getElem?_eq_none h]

theorem infinite_not_isPassed (s : Source) :
    (Set.ofPred fun j => s.isPassed j = false).Infinite :=
  Set.infinite_of_injective_forall_mem (f := (s.size + ·)) (add_right_injective s.size) fun n =>
    isPassed_of_size_le (Nat.le_add_right s.size n)

/-- An index with a lower rank than another one lies before it, and the other way round. -/
theorem lt_rank_iff : k < s.rank i ↔ s.nth k < i :=
  Nat.lt_nth_iff_count_lt s.infinite_not_isPassed

theorem rank_le_iff : s.rank i ≤ k ↔ i ≤ s.nth k :=
  Nat.count_le_iff_le_nth s.infinite_not_isPassed

@[simp] theorem rank_nth (s : Source) (k : Nat) : s.rank (s.nth k) = k :=
  Nat.count_nth_of_infinite s.infinite_not_isPassed k

@[simp] theorem isPassed_nth (s : Source) (k : Nat) : s.isPassed (s.nth k) = false :=
  Nat.nth_mem_of_infinite s.infinite_not_isPassed k

theorem nth_rank (h : s.isPassed i = false) : s.nth (s.rank i) = i := Nat.nth_count h

theorem strictMono_nth (s : Source) : StrictMono s.nth :=
  Nat.nth_strictMono s.infinite_not_isPassed

@[simp] theorem nth_lt_nth_iff : s.nth k < s.nth l ↔ k < l := s.strictMono_nth.lt_iff_lt

@[simp] theorem nth_le_nth_iff : s.nth k ≤ s.nth l ↔ k ≤ l := s.strictMono_nth.le_iff_le

@[simp] theorem nth_inj : s.nth k = s.nth l ↔ k = l := s.strictMono_nth.injective.eq_iff

theorem monotone_rank (s : Source) : Monotone s.rank := Nat.count_monotone _

@[simp] theorem rank_zero (s : Source) : s.rank 0 = 0 := Nat.count_zero _

@[simp] theorem rank_nth_add_one (s : Source) (k : Nat) : s.rank (s.nth k + 1) = k + 1 :=
  Nat.count_nth_succ_of_infinite s.infinite_not_isPassed k

/-- An index that is passed over has the rank of the next one. -/
theorem rank_add_one_of_isPassed (h : s.isPassed i = true) : s.rank (i + 1) = s.rank i :=
  Nat.count_succ_eq_count_iff.2 (by simpa using h)

theorem rank_add_one_of_not_isPassed (h : s.isPassed i = false) : s.rank (i + 1) = s.rank i + 1 :=
  Nat.count_succ_eq_succ_count_iff.2 h

/-! ### Tokens -/

/-- The rank of an index counts the coding tokens before it. -/
theorem rank_eq_countP (h : i ≤ s.size) :
    s.rank i = (s.tokens.toList.take i).countP fun t => !t.kind.isNonCoding := by
  induction i with
  | zero => simp
  | succ i ih =>
    have hi : i < s.tokens.size := h
    have htoken : s.isPassed i = s.tokens[i].kind.isNonCoding :=
      isPassed_eq (Array.getElem?_eq_getElem hi)
    rw [List.take_succ_eq_append_getElem (by simpa using hi), List.countP_append, ← ih hi.le]
    rcases hpassed : s.isPassed i with _ | _
    · rw [hpassed] at htoken
      simp [rank_add_one_of_not_isPassed hpassed, ← htoken]
    · rw [hpassed] at htoken
      simp [rank_add_one_of_isPassed hpassed, ← htoken]

theorem length_coding (s : Source) : s.coding.length = s.rank s.size := by
  have htake : s.tokens.toList.take s.size = s.tokens.toList :=
    List.take_of_length_le (by simp [size])
  rw [rank_eq_countP le_rfl, htake, coding, List.length_map, List.countP_eq_length_filter]

@[simp] theorem size_condensed (s : Source) : s.condensed.size = s.rank s.size := by
  rw [← length_coding]
  simp [condensed, ofCoding, size]

theorem nth_lt_size_iff : s.nth k < s.size ↔ k < s.condensed.size := by
  rw [size_condensed, lt_rank_iff]

end Source

/-- What stands in a filtered list at the number of entries before an entry is this entry. -/
theorem getElem?_filter_countP {α : Type} {p : α → Bool} {l : List α} {i : Nat} {a : α}
    (ha : l[i]? = some a) (hp : p a = true) : (l.filter p)[(l.take i).countP p]? = some a := by
  induction l generalizing i with
  | nil => simp at ha
  | cons b l ih =>
    cases i with
    | zero =>
      obtain rfl : b = a := by simpa using ha
      simp [hp]
    | succ i =>
      have ih := ih (by simpa using ha)
      rw [List.take_succ_cons, List.countP_cons, List.filter_cons]
      split_ifs with hb
      · simpa using ih
      · simpa using ih

/-- Whether a property of tokens hangs on their kinds and texts only. -/
def Token.IsLexical (p : Token → Bool) : Prop :=
  ∀ t u : Token, t.kind = u.kind → t.text = u.text → p t = p u

namespace Source

variable {s : Source} {p q : Nat → Bool} {i floor k : Nat}

/-- The tokens of the condensed source are those with their ranks. -/
theorem getElem?_condensed (s : Source) (k : Nat) :
    s.condensed.tokens[k]? = s.tokens[s.nth k]?.map fun t => bareToken t.kind t.text := by
  by_cases hk : k < s.condensed.size
  · have hlt := nth_lt_size_iff.2 hk
    have htoken : s.tokens.toList[s.nth k]? = some s.tokens[s.nth k] := by
      simp [Array.getElem?_eq_getElem hlt]
    have hcoding : (!s.tokens[s.nth k].kind.isNonCoding) = true := by
      have hpassed := s.isPassed_nth k
      rw [isPassed_eq (Array.getElem?_eq_getElem hlt)] at hpassed
      simpa using hpassed
    have hfilter := getElem?_filter_countP (p := fun t => !t.kind.isNonCoding) htoken hcoding
    rw [← rank_eq_countP hlt.le, rank_nth] at hfilter
    simp [condensed, ofCoding, coding, hfilter, Array.getElem?_eq_getElem hlt]
  · have hge : s.size ≤ s.nth k := Nat.not_lt.1 fun h => hk (nth_lt_size_iff.1 h)
    rw [Array.getElem?_eq_none (Nat.not_lt.1 hk), Array.getElem?_eq_none hge, Option.map_none]

theorem holdsAt_condensed {r : Token → Bool} (hr : Token.IsLexical r) (k : Nat) :
    s.condensed.holdsAt r k = s.holdsAt r (s.nth k) := by
  unfold holdsAt
  rw [getElem?_condensed]
  rcases s.tokens[s.nth k]? with _ | t
  · rfl
  · exact hr _ _ rfl rfl

/-! ### Searches -/

section searches

variable (hp : ∀ i, p i = true → s.isPassed i = false) (hq : ∀ k, p (s.nth k) = q k)

include hp hq

/-- A property holds of an index only if it holds of its rank, and the index is not passed over. -/
theorem eq_false_of_rank {j : Nat} (h : s.isPassed j = false → q (s.rank j) = false) :
    p j = false := by
  rcases hpassed : s.isPassed j with _ | _
  · calc p j = p (s.nth (s.rank j)) := by rw [nth_rank hpassed]
      _ = q (s.rank j) := hq _
      _ = false := h hpassed
  · refine Bool.eq_false_iff.2 fun hpj => ?_
    rw [hp j hpj] at hpassed
    cases hpassed

/-- The least index with a property, from the condensed source. -/
theorem findUp_eq (i : Nat) :
    findUp p i s.size = (findUp q (s.rank i) s.condensed.size).map s.nth := by
  rcases hfind : findUp q (s.rank i) s.condensed.size with _ | k
  · rw [findUp_eq_none_iff] at hfind
    refine findUp_eq_none_iff.2 fun j hij hj => eq_false_of_rank hp hq fun hpassed => ?_
    exact hfind (s.rank j) (s.monotone_rank hij) (nth_lt_size_iff.1 (by rwa [nth_rank hpassed]))
  · obtain ⟨hik, hk, hqk, hbefore⟩ := findUp_eq_some_iff.1 hfind
    refine findUp_eq_some_iff.2 ⟨rank_le_iff.1 hik, nth_lt_size_iff.2 hk, ?_, fun j hij hj => ?_⟩
    · rw [hq, hqk]
    · refine eq_false_of_rank hp hq fun hpassed => hbefore (s.rank j) (s.monotone_rank hij) ?_
      rwa [← nth_rank hpassed, nth_lt_nth_iff] at hj

/-- The greatest index with a property, from the condensed source. -/
theorem findDown_eq (floor i : Nat) :
    findDown p floor i = (findDown q (s.rank floor) (s.rank i)).map s.nth := by
  rcases hfind : findDown q (s.rank floor) (s.rank i) with _ | k
  · rw [findDown_eq_none_iff] at hfind
    refine findDown_eq_none_iff.2 fun j hfloor hj => eq_false_of_rank hp hq fun hpassed => ?_
    exact hfind (s.rank j) (s.monotone_rank hfloor) (lt_rank_iff.2 (by rwa [nth_rank hpassed]))
  · obtain ⟨hfloor, hk, hqk, hafter⟩ := findDown_eq_some_iff.1 hfind
    refine findDown_eq_some_iff.2 ⟨rank_le_iff.1 hfloor, lt_rank_iff.1 hk, ?_, fun j hj hji => ?_⟩
    · rw [hq, hqk]
    · refine eq_false_of_rank hp hq fun hpassed =>
        hafter (s.rank j) ?_ (lt_rank_iff.2 (by rwa [nth_rank hpassed]))
      rwa [← nth_rank hpassed, nth_lt_nth_iff] at hj

end searches

end Source

end SourceSpans
