import Mathlib.Tactic.Common
import SourceSpans.Proofs.Text.Places

/-!
# Line ends

A line ends with a line feed, which may have a carriage return before it. `Text.crlf` puts one before
each line feed and `Text.lineFeeds` reads the pair as a line feed again (`lineFeeds_crlf`). Positions do
not depend on it (`advance_crlf`), and the lines are the same but for their ends (`lines_crlf`).
-/

namespace SourceSpans.Text

/-- The text with a carriage return before each line feed. -/
def crlf : Text → Text
  | [] => []
  | c :: t => if c = '\n' then '\r' :: '\n' :: crlf t else c :: crlf t

/-- The text with each pair of a carriage return and a line feed read as a line feed. -/
def lineFeeds : Text → Text
  | [] => []
  | '\r' :: '\n' :: t => '\n' :: lineFeeds t
  | c :: t => c :: lineFeeds t

variable {c : Char} {s t : Text} {n : Nat}

@[simp] theorem crlf_nil : crlf [] = [] := rfl

@[simp] theorem crlf_lineFeed (t : Text) : crlf ('\n' :: t) = '\r' :: '\n' :: crlf t := rfl

theorem crlf_cons (h : c ≠ '\n') (t : Text) : crlf (c :: t) = c :: crlf t := if_neg h

@[simp] theorem crlf_append (s t : Text) : crlf (s ++ t) = crlf s ++ crlf t := by
  induction s with
  | nil => rfl
  | cons c s ih =>
    by_cases hc : c = '\n'
    · subst hc
      simp [ih]
    · simp [crlf_cons hc, ih]

theorem crlf_of_not_mem (h : '\n' ∉ t) : crlf t = t := by
  induction t with
  | nil => rfl
  | cons c t ih =>
    rw [List.mem_cons, not_or] at h
    rw [crlf_cons (Ne.symm h.1), ih h.2]

theorem crlf_eq_nil_iff : crlf t = [] ↔ t = [] := by
  cases t with
  | nil => simp
  | cons c t =>
    rw [crlf]
    split_ifs <;> simp

theorem crlf_eq_singleton_iff (h : c ≠ '\n') : crlf t = [c] ↔ t = [c] := by
  cases t with
  | nil => simp
  | cons d t =>
    by_cases hd : d = '\n'
    · subst hd
      simp [Ne.symm h]
    · simp [crlf_cons hd, crlf_eq_nil_iff]

/-- The carriage returns that are put in can be taken out again. -/
theorem lineFeeds_crlf (h : '\r' ∉ t) : lineFeeds (crlf t) = t := by
  induction t with
  | nil => rfl
  | cons c t ih =>
    rw [List.mem_cons, not_or] at h
    by_cases hc : c = '\n'
    · subst hc
      rw [crlf_lineFeed, lineFeeds, ih h.2]
    · rw [crlf_cons hc, lineFeeds, ih h.2]
      rintro _ rfl
      exact absurd rfl h.1

/-- A beginning of the text becomes a beginning. -/
theorem take_crlf (t : Text) (n : Nat) : (crlf t).take (crlf (t.take n)).length = crlf (t.take n) := by
  conv => lhs; rw [← List.take_append_drop n t, crlf_append]
  rw [List.take_append_drop, List.take_left]

theorem drop_crlf (t : Text) (n : Nat) : (crlf t).drop (crlf (t.take n)).length = crlf (t.drop n) := by
  conv => lhs; rw [← List.take_append_drop n t, crlf_append]
  rw [List.take_append_drop, List.drop_left]

/-- Before the first line feed nothing changes. -/
theorem length_crlf_take (h : '\n' ∉ t.take n) (hn : n ≤ t.length) :
    (crlf (t.take n)).length = n := by
  rw [crlf_of_not_mem h, List.length_take, Nat.min_eq_left hn]

theorem advance_crlf (p : Position) (t : Text) : p.advance (crlf t) = p.advance t := by
  induction t generalizing p with
  | nil => rfl
  | cons c t ih =>
    by_cases hc : c = '\n'
    · subst hc
      rw [crlf_lineFeed, Position.advance_cons, Position.advance_cons, Position.advance_cons, ih]
      rfl
    · rw [crlf_cons hc, Position.advance_cons, Position.advance_cons, ih]

theorem lines_crlf (t : Text) : lines (crlf t) = (lines t).map crlf := by
  induction t with
  | nil => rfl
  | cons c t ih =>
    by_cases hc : c = '\n'
    · subst hc
      rw [crlf_lineFeed, lines, if_neg (by decide), lines, if_pos rfl, lines, if_pos rfl, ih]
      rfl
    · obtain ⟨line, others, hlines⟩ := List.exists_cons_of_ne_nil (lines_ne_nil t)
      rw [crlf_cons hc, lines, if_neg hc, ih, lines, if_neg hc, hlines]
      simp [crlf_cons hc]

theorem lineAt_crlf (t : Text) (line : Nat) :
    lineAt (lines (crlf t)) line = crlf (lineAt (lines t) line) := by
  rw [lines_crlf, lineAt, lineAt]
  split_ifs
  · rfl
  · rw [List.getElem?_map]
    cases (lines t)[line - 1]? <;> rfl

theorem line_lt_advance (p : Position) (h : '\n' ∈ t) : p.line < (p.advance t).line := by
  induction t generalizing p with
  | nil => cases h
  | cons c t ih =>
    rw [Position.advance_cons]
    by_cases hc : c = '\n'
    · subst hc
      exact (p.next '\n').line_le_advance t
    · have hnext : (p.next c).line = p.line := by rw [Position.next, if_neg hc]
      rw [← hnext]
      exact ih _ ((List.mem_cons.1 h).resolve_left (Ne.symm hc))

/-- What stands before a place on its line is the same, whatever the line ends are. -/
theorem take_lineText_crlf (u v : Text) :
    (lineText (crlf (u ++ v)) (Position.start.advance u).line).take (Position.start.advance u).col =
      crlf ((lineText (u ++ v) (Position.start.advance u).line).take
        (Position.start.advance u).col) := by
  obtain ⟨before, hbefore, hstart⟩ := exists_append_take_lineText u v
  have hplace : Position.start.advance u =
      (Position.advance ⟨(Position.start.advance u).line, 0⟩
        ((lineText (u ++ v) (Position.start.advance u).line).take
          (Position.start.advance u).col)) := by
    rw [← hstart, ← Position.advance_append, hbefore]
  rw [lineText, lineAt_crlf, ← lineText]
  generalize lineText (u ++ v) (Position.start.advance u).line = line at hplace ⊢
  generalize Position.start.advance u = p at hplace ⊢
  have hfeed : '\n' ∉ line.take p.col := fun hmem => by
    have hlt := line_lt_advance ⟨p.line, 0⟩ hmem
    rw [← hplace] at hlt
    exact Nat.lt_irrefl _ hlt
  have hlength : (line.take p.col).length = p.col := by
    rw [Position.advance_of_not_mem _ hfeed] at hplace
    have hcol := congrArg Position.col hplace
    exact (hcol.trans (Nat.zero_add _)).symm
  have htake := take_crlf line p.col
  rwa [length_crlf_take hfeed (by rw [List.length_take] at hlength; omega)] at htake

end SourceSpans.Text
