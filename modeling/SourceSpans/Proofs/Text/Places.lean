import Mathlib.Data.List.Induction
import Mathlib.Order.Nat
import Mathlib.Tactic.Common
import SourceSpans.Text.Position

/-!
# The places of a text

A place of a text is the position after a beginning of it (`Text.IsPlace`). Positions are in reading
order, in which reading on never goes back (`Position.le_advance`) and reading a character goes
forward (`Position.lt_advance`). The offset of the place after a beginning is the size of the
beginning (`Text.offset_advance`), so the offsets of places are in reading order
(`Text.IsPlace.offset_le`). This is wrong of other positions: a column past the end of its line has
an offset on one of the next lines. What stands before a place on its line is so many characters of the
line as the column says (`Text.exists_append_take_lineText`).
-/

namespace SourceSpans

namespace Position

/-! ### Reading order -/

theorem le_refl (p : Position) : p.le p = true := by
  rw [le_iff]
  omega

theorem le_trans {p q r : Position} (hpq : p.le q = true) (hqr : q.le r = true) :
    p.le r = true := by
  rw [le_iff] at *
  omega

theorem le_of_lt {p q : Position} (h : p.lt q = true) : p.le q = true := by
  rw [lt_iff] at h
  rw [le_iff]
  omega

theorem lt_of_lt_of_le {p q r : Position} (hpq : p.lt q = true) (hqr : q.le r = true) :
    p.lt r = true := by
  rw [lt_iff] at *
  rw [le_iff] at hqr
  omega

theorem not_lt {p q : Position} : p.lt q = false ↔ q.le p = true := by
  rw [Position.le]
  simp

theorem lt_next (p : Position) (c : Char) : p.lt (p.next c) = true := by
  rw [lt_iff, next]
  split_ifs <;> simp

/-- Reading on never goes back. -/
theorem le_advance (p : Position) (t : Text) : p.le (p.advance t) = true := by
  induction t generalizing p with
  | nil => exact p.le_refl
  | cons c t ih => exact le_trans (le_of_lt (p.lt_next c)) (ih (p.next c))

theorem line_le_advance (p : Position) (t : Text) : p.line ≤ (p.advance t).line := by
  have h := p.le_advance t
  rw [le_iff] at h
  omega

/-- Reading a character goes forward. -/
theorem lt_advance (p : Position) {t : Text} (h : t ≠ []) : p.lt (p.advance t) = true := by
  cases t with
  | nil => exact absurd rfl h
  | cons c t => exact lt_of_lt_of_le (p.lt_next c) ((p.next c).le_advance t)

/-- A line starts before each of its positions, and not before an earlier position does. -/
theorem lineStart_le_lineStart {p q : Position} (h : p.le q = true) :
    (⟨p.line, 0⟩ : Position).le ⟨q.line, 0⟩ = true := by
  rw [le_iff] at *
  show p.line < q.line ∨ p.line = q.line ∧ 0 ≤ 0
  omega

/-- Reading characters of one line moves the column on. -/
theorem advance_of_not_mem (p : Position) {t : Text} (h : '\n' ∉ t) :
    p.advance t = ⟨p.line, p.col + t.length⟩ := by
  induction t generalizing p with
  | nil => rfl
  | cons c t ih =>
    rw [List.mem_cons, not_or] at h
    rw [advance_cons, ih _ h.2, next, if_neg (Ne.symm h.1), List.length_cons]
    simp only [Position.mk.injEq, true_and]
    omega

end Position

namespace Text

/-! ### Lines -/

theorem lines_ne_nil (t : Text) : lines t ≠ [] := by
  cases t with
  | nil => exact List.cons_ne_nil _ _
  | cons c t =>
    rw [lines]
    split_ifs
    · exact List.cons_ne_nil _ _
    · split <;> exact List.cons_ne_nil _ _

/-- Characters that end no line stand at the start of the first line. -/
theorem lines_append_of_not_mem {w : Text} (h : '\n' ∉ w) (t : Text) :
    ∃ line others, lines t = line :: others ∧ lines (w ++ t) = (w ++ line) :: others := by
  induction w with
  | nil =>
    obtain ⟨line, others, heq⟩ := List.exists_cons_of_ne_nil (lines_ne_nil t)
    exact ⟨line, others, heq, heq⟩
  | cons c w ih =>
    rw [List.mem_cons, not_or] at h
    obtain ⟨line, others, ht, hw⟩ := ih h.2
    refine ⟨line, others, ht, ?_⟩
    rw [List.cons_append, lines, if_neg (Ne.symm h.1), hw, List.cons_append]

/-- After characters that end no line, a line feed ends the first line. -/
theorem lines_append_lineFeed {w : Text} (h : '\n' ∉ w) (t : Text) :
    lines (w ++ '\n' :: t) = (w ++ ['\n']) :: lines t := by
  obtain ⟨line, others, ht, hw⟩ := lines_append_of_not_mem h ('\n' :: t)
  rw [lines, if_pos rfl] at ht
  obtain ⟨rfl, rfl⟩ := List.cons_eq_cons.1 ht
  exact hw

/-- The lines before the position after a text, and as many characters of its line as its column
says, make up the text that has been read. Here `w` is what has been read on line `n` already. -/
theorem lines_advance (n : Nat) (u v : Text) : ∀ w : Text, '\n' ∉ w →
    ∃ part rest,
      (lines (w ++ u ++ v))[((⟨n, w.length⟩ : Position).advance u).line - n]? =
        some (part ++ rest) ∧
      part.length = ((⟨n, w.length⟩ : Position).advance u).col ∧
      ((lines (w ++ u ++ v)).take (((⟨n, w.length⟩ : Position).advance u).line - n)).flatten ++
        part = w ++ u := by
  induction u generalizing n with
  | nil =>
    intro w hw
    obtain ⟨line, others, -, hlines⟩ := lines_append_of_not_mem hw v
    refine ⟨w, line, ?_, rfl, ?_⟩
    · simp [hlines]
    · simp
  | cons c u ih =>
    intro w hw
    rw [Position.advance_cons]
    by_cases hc : c = '\n'
    · subst hc
      have hnext : (⟨n, w.length⟩ : Position).next '\n' = ⟨n + 1, 0⟩ := rfl
      obtain ⟨part, rest, hline, hlength, htake⟩ := ih (n + 1) [] List.not_mem_nil
      have hle : n + 1 ≤ ((⟨n + 1, 0⟩ : Position).advance u).line :=
        Position.line_le_advance ⟨n + 1, 0⟩ u
      have hlines : lines (w ++ '\n' :: u ++ v) = (w ++ ['\n']) :: lines (u ++ v) := by
        rw [List.append_assoc, List.cons_append, lines_append_lineFeed hw]
      rw [hnext, hlines]
      simp only [List.nil_append, List.length_nil] at hline hlength htake
      generalize (⟨n + 1, 0⟩ : Position).advance u = p at *
      obtain ⟨k, hk⟩ : ∃ k, p.line - n = k + 1 := ⟨p.line - n - 1, by omega⟩
      have hk' : p.line - (n + 1) = k := by omega
      rw [hk'] at hline htake
      rw [hk, List.getElem?_cons_succ, List.take_succ_cons, List.flatten_cons]
      refine ⟨part, rest, hline, hlength, ?_⟩
      rw [List.append_assoc, htake, List.append_assoc]
      rfl
    · have hnext : (⟨n, w.length⟩ : Position).next c = ⟨n, (w ++ [c]).length⟩ := by
        rw [Position.next, if_neg hc, List.length_append, List.length_singleton]
      have hw' : '\n' ∉ w ++ [c] := by
        rw [List.mem_append, List.mem_singleton, not_or]
        exact ⟨hw, Ne.symm hc⟩
      have happend : w ++ c :: u = w ++ [c] ++ u := by simp
      rw [hnext, happend]
      exact ih n (w ++ [c]) hw'

/-! ### Offsets of places -/

/-- The byte column after so many characters of a line is the size of these characters. -/
theorem byteColumn_append (a : Nat) (part rest : Text) :
    byteColumn (a + part.length) a (part ++ rest) = a + size part := by
  induction part generalizing a with
  | nil =>
    cases rest with
    | nil => rfl
    | cons c rest =>
      rw [List.nil_append, byteColumn, if_neg (by rw [List.length_nil]; omega)]
      rfl
  | cons c part ih =>
    have hpos := c.utf8Size_pos
    have hcol : a + (c :: part).length + (c.utf8Size - 1) = a + c.utf8Size + part.length := by
      rw [List.length_cons]
      omega
    rw [List.cons_append, byteColumn, if_pos (by rw [List.length_cons]; omega), hcol, ih, size_cons,
      Nat.add_assoc]

/-- **The offset of the position after a beginning of a text is the size of the beginning.** -/
theorem offset_advance (u v : Text) : offset (u ++ v) (Position.start.advance u) = size u := by
  obtain ⟨part, rest, hline, hlength, htake⟩ := lines_advance 1 u v [] List.not_mem_nil
  have hle : 1 ≤ (Position.start.advance u).line := Position.start.line_le_advance u
  have hstart : Position.start = ⟨1, 0⟩ := rfl
  rw [hstart] at hle ⊢
  simp only [List.nil_append, List.length_nil] at hline hlength htake
  generalize (⟨1, 0⟩ : Position).advance u = p at *
  have hpos : p.line ≠ 0 := Nat.ne_of_gt hle
  have hcolumn : byteColumn p.col 0 (part ++ rest) = size part := by
    have h := byteColumn_append 0 part rest
    rwa [Nat.zero_add, Nat.zero_add, hlength] at h
  rw [offset_eq, if_neg hpos, hline]
  show min (size (u ++ v)) (_ + byteColumn p.col 0 (part ++ rest)) = size u
  rw [hcolumn, ← size_append, htake, size_append]
  exact Nat.min_eq_right (Nat.le_add_right _ _)

/-- The positions after the beginnings of a text. -/
def IsPlace (t : Text) (p : Position) : Prop := ∃ u, u <+: t ∧ Position.start.advance u = p

namespace IsPlace

variable {t : Text} {p q : Position}

theorem advance {u v w : Text} (h : u ++ v ++ w = t) (hu : Position.start.advance u = p) :
    IsPlace t (p.advance v) :=
  ⟨u ++ v, ⟨w, h⟩, by rw [Position.advance_append, hu]⟩

/-- Lines start at places. -/
theorem lineStart (h : IsPlace t p) : IsPlace t ⟨p.line, 0⟩ := by
  obtain ⟨u, hu, rfl⟩ := h
  induction u using List.reverseRecOn with
  | nil => exact ⟨[], hu, rfl⟩
  | append_singleton u c ih =>
    rw [Position.advance_append]
    show IsPlace t ⟨((Position.start.advance u).next c).line, 0⟩
    by_cases hc : c = '\n'
    · subst hc
      exact ⟨u ++ ['\n'], hu, Position.advance_append _ _ _⟩
    · rw [Position.next, if_neg hc]
      exact ih ((List.prefix_append _ _).trans hu)

/-- **The offsets of places are in reading order.** -/
theorem offset_le (hp : IsPlace t p) (hq : IsPlace t q) (h : p.le q = true) :
    offset t p ≤ offset t q := by
  obtain ⟨u, hu, rfl⟩ := hp
  obtain ⟨v, hv, rfl⟩ := hq
  have hprefix : u <+: v := by
    rcases List.prefix_or_prefix_of_prefix hu hv with hle | ⟨w, rfl⟩
    · exact hle
    · -- a place after `v` is read later than `v`
      by_cases hw : w = []
      · exact ⟨[], by rw [hw, List.append_nil, List.append_nil]⟩
      · have hlt := (Position.start.advance v).lt_advance hw
        rw [Position.advance_append, Position.le, hlt] at h
        cases h
  obtain ⟨u', rfl⟩ := hu
  obtain ⟨w, rfl⟩ := hprefix
  obtain ⟨v', hv⟩ := hv
  rw [offset_advance, ← hv, offset_advance, size_append]
  exact Nat.le_add_right _ _

end IsPlace

/-- A place is the position after one beginning of the text only. -/
theorem eq_of_advance_eq {t u u' : Text} (hu : u <+: t) (hu' : u' <+: t)
    (h : Position.start.advance u = Position.start.advance u') : u = u' := by
  have hle : ∀ {a b : Text}, a <+: b → Position.start.advance a = Position.start.advance b →
      a = b := by
    rintro a _ ⟨w, rfl⟩ heq
    by_contra hne
    have hw : w ≠ [] := fun hw => hne (by rw [hw, List.append_nil])
    have hlt := (Position.start.advance a).lt_advance hw
    rw [← Position.advance_append, ← heq, Position.lt_iff] at hlt
    omega
  rcases List.prefix_or_prefix_of_prefix hu hu' with hprefix | hprefix
  · exact hle hprefix h
  · exact (hle hprefix h.symm).symm

/-- Before a place stand the characters of its line, as many as its column says, and before them
its line starts. -/
theorem exists_append_take_lineText (u v : Text) :
    ∃ before, before ++ (lineText (u ++ v) (Position.start.advance u).line).take
        (Position.start.advance u).col = u ∧
      Position.start.advance before = ⟨(Position.start.advance u).line, 0⟩ := by
  have hplace : IsPlace (u ++ v) (Position.start.advance u) := ⟨u, ⟨v, rfl⟩, rfl⟩
  obtain ⟨before, ⟨after, hafter⟩, hbefore⟩ := hplace.lineStart
  refine ⟨before, ?_, hbefore⟩
  have hle : 1 ≤ (Position.start.advance u).line := Position.start.line_le_advance u
  obtain ⟨part, rest, hline, hlength, htake⟩ := lines_advance 1 u v [] List.not_mem_nil
  obtain ⟨part', rest', -, hlength', htake'⟩ := lines_advance 1 before after [] List.not_mem_nil
  have hstart : Position.start = ⟨1, 0⟩ := rfl
  simp only [List.nil_append, List.length_nil, ← hstart] at hline hlength htake hlength' htake'
  rw [hafter, hbefore] at htake'
  rw [hbefore, List.length_eq_zero_iff] at hlength'
  rw [hlength', List.append_nil] at htake'
  rw [htake'] at htake
  have htext : lineText (u ++ v) (Position.start.advance u).line = part ++ rest := by
    rw [lineText, lineAt, if_neg (Nat.ne_of_gt hle), hline]
    rfl
  rw [htext, ← hlength, List.take_left, htake]

end Text

end SourceSpans
