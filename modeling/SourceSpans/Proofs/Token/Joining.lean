import Mathlib.Data.List.SplitBy
import SourceSpans.Proofs.Token.Order

/-!
# The first token after joining

Tokens at the start of a list that go on with one another, and of which the first is an identifier and
all make up one, are the first stretch that is looked at, if no token after them goes on with the
identifier. They are joined into one name if there is an error token among them, and otherwise the first
of them stays the first token (`head?_normalize`).
-/

namespace SourceSpans

namespace RawToken

/-- What tokens make up. -/
def spelled (ts : List RawToken) : Text := (ts.map RawToken.text).flatten

@[simp] theorem spelled_nil : spelled [] = [] := rfl

@[simp] theorem spelled_cons (t : RawToken) (ts : List RawToken) :
    spelled (t :: ts) = t.text ++ spelled ts := rfl

theorem isPiece_and_meets_of_continues {a b : RawToken} (h : a.continues b = true) :
    a.isPiece = true ∧ b.isPiece = true ∧ a.meets b = true := by
  rw [continues, Bool.and_eq_true, Bool.and_eq_true] at h
  exact ⟨h.1.1, h.1.2, h.2⟩

end RawToken

open RawToken (spelled)

/-- A list that splits nowhere stands in the first part of what it begins, and what else stands in this
part goes on with it. -/
theorem exists_splitBy_append {α : Type} (r : α → α → Bool) {l : List α} (hne : l ≠ [])
    (hchain : l.IsChain fun a b => r a b = true) (m : List α) :
    ∃ more parts, (l ++ m).splitBy r = (l ++ more) :: parts ∧
      ∀ b ∈ more.head?, b ∈ m.head? ∧ r (l.getLast hne) b = true := by
  induction m generalizing l with
  | nil =>
    refine ⟨[], [], ?_, nofun⟩
    rw [List.append_nil, List.splitBy_of_isChain hne hchain]
  | cons b m ih =>
    by_cases hr : r (l.getLast hne) b = true
    · have hlast : ∀ a ∈ l.getLast?, ∀ c ∈ [b].head?, r a c = true := by
        intro a ha c hc
        rw [List.getLast?_eq_some_getLast hne] at ha
        rwa [← Option.mem_some_iff.1 ha, ← Option.mem_some_iff.1 hc]
      obtain ⟨more, parts, hsplit, -⟩ := ih (l := l ++ [b]) (by simp)
        (List.isChain_append.2 ⟨hchain, .singleton b, hlast⟩)
      refine ⟨b :: more, parts, ?_, ?_⟩
      · simpa using hsplit
      · intro c hc
        rw [← Option.mem_some_iff.1 hc]
        exact ⟨rfl, hr⟩
    · refine ⟨[], (b :: m).splitBy r, ?_, nofun⟩
      rw [List.splitBy_append_cons, List.splitBy_of_isChain hne hchain, List.append_nil]
      · rfl
      · intro a ha
        rw [List.getLast?_eq_some_getLast hne] at ha
        rw [← Option.mem_some_iff.1 ha]
        exact Bool.eq_false_iff.2 hr

/-- Tokens that go on with an identifier are counted up to one that does not. -/
theorem stretchFrom_append {sofar : Text} {last : RawToken} {ts more : List RawToken}
    (hsofar : sofar ≠ []) (hchain : (last :: ts).IsChain fun a b => a.continues b = true)
    (hid : Text.isIdentifier (sofar ++ spelled ts) = true)
    (hmore : ∀ b ∈ more.head?, Text.isIdentifier (sofar ++ spelled ts ++ b.text) = false) :
    stretchFrom sofar last (ts ++ more) = ts.length := by
  induction ts generalizing sofar last with
  | nil =>
    cases more with
    | nil => rfl
    | cons b more =>
      have hb := hmore b rfl
      rw [RawToken.spelled_nil, List.append_nil] at hb
      rw [List.nil_append, stretchFrom, hb, Bool.and_false]
      rfl
  | cons t ts ih =>
    rw [List.isChain_cons_cons] at hchain
    rw [RawToken.spelled_cons, ← List.append_assoc] at hid hmore
    have hne : sofar ++ t.text ≠ [] := fun h => hsofar (List.append_eq_nil_iff.1 h).1
    have hmeets := (RawToken.isPiece_and_meets_of_continues hchain.1).2.2
    have hprefix := Text.isIdentifier_of_append hne hid
    rw [List.cons_append, stretchFrom, hmeets, hprefix, ih hne hchain.2 hid hmore]
    rfl

variable {t : RawToken} {ts others joined : List RawToken}

/-- The first stretch is joined if it holds an error token. -/
theorem head?_join {more : List RawToken} (ht : t.text ≠ [])
    (hchain : (t :: ts).IsChain fun a b => a.continues b = true)
    (hid : Text.isIdentifier (spelled (t :: ts)) = true)
    (hmore : ∀ b ∈ more.head?, Text.isIdentifier (spelled (t :: ts) ++ b.text) = false) :
    (join (t :: ts ++ more)).head? =
      some (if (t :: ts).any (·.kind == .errorToken) then merged t ts else t) := by
  rw [RawToken.spelled_cons] at hid hmore
  have hlength : stretchLength (t :: (ts ++ more)) = ts.length + 1 := by
    rw [stretchLength, if_pos (Text.isIdentifier_of_append ht hid),
      stretchFrom_append ht hchain hid hmore]
  have htake : (ts ++ more).take (ts.length + 1 - 1) = ts := List.take_left
  rw [join, List.cons_append]
  simp only [joinFrom, hlength, htake]
  split_ifs with hjoin herror herror
  · rfl
  · exact absurd hjoin.2 herror
  · exact absurd ⟨Nat.succ_ne_zero _, herror⟩ hjoin
  · rfl

/-- **The first token after joining** is the name of the identifier that the first tokens make up, if
there is an error token among them. -/
theorem head?_normalize (h : normalize (t :: ts ++ others) = .ok joined) (ht : t.text ≠ [])
    (hchain : (t :: ts).IsChain fun a b => a.continues b = true)
    (hid : Text.isIdentifier (spelled (t :: ts)) = true)
    (hothers : ∀ b ∈ others.head?, ((t :: ts).getLast (List.cons_ne_nil _ _)).continues b = true →
      Text.isIdentifier (spelled (t :: ts) ++ b.text) = false) :
    joined.head? = some (if (t :: ts).any (·.kind == .errorToken) then merged t ts else t) := by
  obtain ⟨more, parts, hsplit, hmore⟩ :=
    exists_splitBy_append RawToken.continues (List.cons_ne_nil t ts) hchain others
  have hjoined : joined = join (t :: ts ++ more) ++ (parts.map join).flatten := by
    by_cases horder : (t :: ts ++ others).IsChain RawToken.Before
    · rw [normalize_of_isChain horder, hsplit] at h
      exact (Except.ok.inj h).symm
    · obtain ⟨index, start, stop, heq⟩ := normalize_of_not_isChain horder
      rw [heq] at h
      cases h
  rw [hjoined, List.head?_append, head?_join ht hchain hid]
  · rfl
  · intro b hb
    exact hothers b (hmore b hb).1 (hmore b hb).2

end SourceSpans
