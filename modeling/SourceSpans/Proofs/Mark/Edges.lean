import Mathlib.Order.Nat
import Mathlib.Tactic.Common
import SourceSpans.Mark.Range

/-!
# The edges of tokens

Token `i` starts at edge `2 * i` and stops at edge `2 * i + 1`. A range runs from one edge to another,
an empty one from an edge to itself, so that the order of ranges, empty ones included, is the order
of their edges. In a source whose tokens are in order (`Source.InOrder`) the byte offsets of edges are
in the order of the edges (`edgeOffset_le`), and what is true of the edges of ranges is true of their
byte offsets.
-/

namespace SourceSpans

namespace TokenRange

/-- The edge where a range starts. -/
def lowEdge (r : TokenRange) : Nat :=
  match r.anchor with
  | .tokens => 2 * r.first
  | .before => 2 * r.first
  | .after => 2 * r.first + 1

/-- The edge where a range stops. -/
def highEdge (r : TokenRange) : Nat :=
  match r.anchor with
  | .tokens => 2 * r.last + 1
  | .before => 2 * r.first
  | .after => 2 * r.first + 1

@[simp] theorem lowEdge_ofTokens (first last : Nat) : (ofTokens first last).lowEdge = 2 * first := rfl

@[simp] theorem highEdge_ofTokens (first last : Nat) :
    (ofTokens first last).highEdge = 2 * last + 1 := rfl

@[simp] theorem lowEdge_emptyBefore (i : Nat) : (emptyBefore i).lowEdge = 2 * i := rfl

@[simp] theorem highEdge_emptyBefore (i : Nat) : (emptyBefore i).highEdge = 2 * i := rfl

@[simp] theorem lowEdge_emptyAfter (i : Nat) : (emptyAfter i).lowEdge = 2 * i + 1 := rfl

@[simp] theorem highEdge_emptyAfter (i : Nat) : (emptyAfter i).highEdge = 2 * i + 1 := rfl

/-- The edges of a range with tokens are those of its first and its last token. -/
theorem edges_of_not_isEmpty {r : TokenRange} (h : r.isEmpty = false) :
    r.lowEdge = 2 * r.first ∧ r.highEdge = 2 * r.last + 1 := by
  obtain ⟨first, last, anchor⟩ := r
  cases anchor with
  | tokens => exact ⟨rfl, rfl⟩
  | before => cases h
  | after => cases h

/-- A range of tokens that there are. -/
def InBounds (r : TokenRange) (size : Nat) : Prop := r.first ≤ r.last ∧ r.last < size

theorem lowEdge_lt (r : TokenRange) {size : Nat} (h : r.InBounds size) : r.lowEdge < 2 * size := by
  obtain ⟨hle, hlt⟩ := h
  unfold lowEdge
  split <;> omega

theorem highEdge_lt (r : TokenRange) {size : Nat} (h : r.InBounds size) :
    r.highEdge < 2 * size := by
  obtain ⟨hle, hlt⟩ := h
  unfold highEdge
  split <;> omega

end TokenRange

namespace Source

/-- The byte offset of an edge. -/
def edgeOffset (s : Source) (edge : Nat) : Nat :=
  if edge % 2 = 0 then s.startOffset (edge / 2) else s.stopOffset (edge / 2)

@[simp] theorem edgeOffset_two_mul (s : Source) (i : Nat) :
    s.edgeOffset (2 * i) = s.startOffset i := by
  have hmod : 2 * i % 2 = 0 := by omega
  have hdiv : 2 * i / 2 = i := by omega
  rw [edgeOffset, if_pos hmod, hdiv]

@[simp] theorem edgeOffset_two_mul_add_one (s : Source) (i : Nat) :
    s.edgeOffset (2 * i + 1) = s.stopOffset i := by
  have hmod : ¬ (2 * i + 1) % 2 = 0 := by omega
  have hdiv : (2 * i + 1) / 2 = i := by omega
  rw [edgeOffset, if_neg hmod, hdiv]

/-- An edge past the last token stands for the end of the text. -/
theorem edgeOffset_of_size_le {s : Source} {edge : Nat} (h : 2 * s.size ≤ edge) :
    s.edgeOffset edge = Text.size s.text := by
  have hnone : s.tokens[edge / 2]? = none := by
    rw [Array.getElem?_eq_none_iff]
    have hsize : s.size = s.tokens.size := rfl
    omega
  unfold edgeOffset startOffset stopOffset
  rw [hnone]
  exact ite_self _

/-- No token stops before it starts or after the next one starts. -/
def InOrder (s : Source) : Prop :=
  ∀ i < s.size, s.startOffset i ≤ s.stopOffset i ∧
    (i + 1 < s.size → s.stopOffset i ≤ s.startOffset (i + 1))

theorem InOrder.edgeOffset_le_succ {s : Source} (h : s.InOrder) {edge : Nat}
    (hedge : edge + 1 < 2 * s.size) : s.edgeOffset edge ≤ s.edgeOffset (edge + 1) := by
  obtain ⟨i, rfl | rfl⟩ : ∃ i, edge = 2 * i ∨ edge = 2 * i + 1 := ⟨edge / 2, by omega⟩
  · rw [edgeOffset_two_mul, edgeOffset_two_mul_add_one]
    exact (h i (by omega)).1
  · rw [show 2 * i + 1 + 1 = 2 * (i + 1) by omega, edgeOffset_two_mul_add_one, edgeOffset_two_mul]
    exact (h i (by omega)).2 (by omega)

/-- The byte offsets of the edges of tokens in order are in order. -/
theorem InOrder.edgeOffset_le {s : Source} (h : s.InOrder) {a b : Nat} (hab : a ≤ b)
    (hb : b < 2 * s.size) : s.edgeOffset a ≤ s.edgeOffset b := by
  induction b, hab using Nat.le_induction with
  | base => exact le_rfl
  | succ b hab ih => exact (ih (by omega)).trans (h.edgeOffset_le_succ hb)

end Source

/-- The byte offsets of a range are those of its two edges. -/
theorem TokenRange.textRange_eq (r : TokenRange) (s : Source) :
    r.textRange s = (s.edgeOffset r.lowEdge, s.edgeOffset r.highEdge) := by
  obtain ⟨first, last, anchor⟩ := r
  cases anchor <;> simp [TokenRange.textRange, TokenRange.lowEdge, TokenRange.highEdge]

end SourceSpans
