import SourceSpans.Proofs.Text.Boundaries
import SourceSpans.Proofs.Text.Places

/-!
# Offsets and positions correspond

A text has the positions on its lines up to the line feed that ends each (`Text.HasPosition`), and these
are its places (`Text.isPlace_iff`):

* **From lines to places** (`Text.exists_advance_eq`): reading as many line feeds as there are lines
  before, and then as many characters as the column says, leads to the position. The induction is on
  the lines before it.
* **From places to lines** (`Text.exists_eq_append_part`): the characters between the start of a line and
  a place on it hold no line feed, and they are as many as the column says.

A place belongs to one beginning of the text, and so does a boundary. So boundaries and positions
correspond one to one, in the same order, and what stands on a line before a column is what stands between
the two offsets (`Text.positions_correspond`).
-/

namespace SourceSpans

/-- Reading goes on by a line at each line feed. -/
theorem Position.line_advance (p : Position) (t : Text) :
    (p.advance t).line = p.line + t.count '\n' := by
  induction t generalizing p with
  | nil => rfl
  | cons c t ih =>
    rw [advance_cons, ih, next]
    by_cases hc : c = '\n'
    · rw [if_pos hc, hc, List.count_cons_self]
      simp only
      omega
    · rw [if_neg hc, List.count_cons_of_ne hc]

namespace Text

/-- A position of a text: on one of its lines, and no further than the characters of the line before its
line feed. A text has one more line than it has line feeds. -/
structure HasPosition (t : Text) (p : Position) : Prop where
  line_pos : 1 ≤ p.line
  line_le : p.line ≤ t.count '\n' + 1
  col_le : p.col ≤ ((lineText t p.line).takeWhile (· ≠ '\n')).length

/-- A text holds a line feed, or it is its only line. -/
theorem lines_cases (t : Text) :
    ('\n' ∉ t ∧ lines t = [t]) ∨
      ∃ w rest, t = w ++ '\n' :: rest ∧ '\n' ∉ w ∧ lines t = (w ++ ['\n']) :: lines rest := by
  by_cases h : '\n' ∈ t
  · obtain ⟨w, rest, rfl, hw⟩ := List.eq_append_cons_of_mem h
    exact Or.inr ⟨w, rest, rfl, hw, lines_append_lineFeed hw rest⟩
  · obtain ⟨line, others, hnil, heq⟩ := lines_append_of_not_mem h []
    rw [List.append_nil] at heq
    obtain ⟨rfl, rfl⟩ := List.cons_eq_cons.1 (hnil : [[]] = line :: others)
    rw [List.append_nil] at heq
    exact Or.inl ⟨h, heq⟩

theorem takeWhile_append_of_not_mem {w : Text} (h : '\n' ∉ w) (rest : Text) :
    (w ++ rest).takeWhile (· ≠ '\n') = w ++ rest.takeWhile (· ≠ '\n') := by
  apply List.takeWhile_append_of_pos
  intro c hc
  rw [decide_eq_true_eq]
  rintro rfl
  exact h hc

/-- So many line feeds and then so many characters of the line lead to the position. Here `n` is the
number of the first line. -/
theorem exists_advance_eq {t line : Text} {k c : Nat} (n : Nat) (hline : (lines t)[k]? = some line)
    (hc : c ≤ (line.takeWhile (· ≠ '\n')).length) :
    ∃ u v, t = u ++ v ∧ (⟨n, 0⟩ : Position).advance u = ⟨n + k, c⟩ := by
  induction k generalizing t n with
  | zero =>
    -- the first line begins with what stands before the first line feed
    have hstart : ∃ w rest, t = w ++ rest ∧ '\n' ∉ w ∧ line.takeWhile (· ≠ '\n') = w := by
      rcases lines_cases t with ⟨ht, heq⟩ | ⟨w, rest, rfl, hw, heq⟩
      · rw [heq] at hline
        obtain rfl := Option.some.inj hline
        refine ⟨t, [], (List.append_nil t).symm, ht, ?_⟩
        simpa using takeWhile_append_of_not_mem ht []
      · rw [heq] at hline
        obtain rfl := Option.some.inj hline
        refine ⟨w, '\n' :: rest, rfl, hw, ?_⟩
        simpa using takeWhile_append_of_not_mem hw ['\n']
    obtain ⟨w, rest, rfl, hw, hwhile⟩ := hstart
    rw [hwhile] at hc
    refine ⟨w.take c, w.drop c ++ rest, ?_, ?_⟩
    · rw [← List.append_assoc, List.take_append_drop]
    · rw [Position.advance_of_not_mem _ fun h => hw (List.mem_of_mem_take h),
        List.length_take_of_le hc, Nat.zero_add, Nat.add_zero]
  | succ k ih =>
    rcases lines_cases t with ⟨-, heq⟩ | ⟨w, rest, rfl, hw, heq⟩
    · rw [heq] at hline
      simp at hline
    · rw [heq, List.getElem?_cons_succ] at hline
      obtain ⟨u, v, rfl, hu⟩ := ih (n + 1) hline
      refine ⟨w ++ '\n' :: u, v, by simp, ?_⟩
      calc (⟨n, 0⟩ : Position).advance (w ++ '\n' :: u)
          = (⟨n + 1, 0⟩ : Position).advance u := by
            rw [Position.advance_append, Position.advance_of_not_mem _ hw, Position.advance_cons]
            rfl
        _ = ⟨n + (k + 1), c⟩ := by
            rw [hu]
            congr 1
            omega

theorem length_lines (t : Text) : (lines t).length = t.count '\n' + 1 := by
  induction t with
  | nil => rfl
  | cons c t ih =>
    rw [lines]
    by_cases hc : c = '\n'
    · rw [if_pos hc, hc, List.count_cons_self, List.length_cons, ih]
    · rw [if_neg hc, List.count_cons_of_ne hc, ← ih]
      rcases hlines : lines t with _ | ⟨line, others⟩
      · exact absurd hlines (lines_ne_nil t)
      · rfl

theorem HasPosition.isPlace {t : Text} {p : Position} (h : t.HasPosition p) : IsPlace t p := by
  obtain ⟨hpos, hle, hcol⟩ := h
  have hlt : p.line - 1 < (lines t).length := by
    rw [length_lines]
    omega
  have htext : lineText t p.line = (lines t)[p.line - 1] := by
    rw [lineText, lineAt, if_neg (by omega), List.getElem?_eq_getElem hlt, Option.getD_some]
  rw [htext] at hcol
  obtain ⟨u, v, rfl, hu⟩ := exists_advance_eq 1 (List.getElem?_eq_getElem hlt) hcol
  refine ⟨u, List.prefix_append u v, ?_⟩
  rw [Position.start, hu, Nat.add_sub_cancel' hpos]

/-- The characters between the start of a line and a place on it, as many as its column says. -/
theorem exists_eq_append_part {u : Text} {p : Position} (v : Text)
    (hu : Position.start.advance u = p) :
    ∃ before part, u = before ++ part ∧ Position.start.advance before = ⟨p.line, 0⟩ ∧
      (lineText (u ++ v) p.line).take p.col = part ∧ '\n' ∉ part ∧ part.length = p.col := by
  obtain ⟨before, hpart, hbefore⟩ := exists_append_take_lineText u v
  rw [hu] at hpart hbefore
  generalize (lineText (u ++ v) p.line).take p.col = part at *
  have hadvance : (⟨p.line, 0⟩ : Position).advance part = p := by
    rw [← hbefore, ← Position.advance_append, hpart, hu]
  have hfeed : '\n' ∉ part := by
    have hline := congrArg Position.line hadvance
    rw [Position.line_advance] at hline
    rw [← List.count_eq_zero]
    exact Nat.left_eq_add.1 hline.symm
  refine ⟨before, part, hpart.symm, hbefore, rfl, hfeed, ?_⟩
  rw [Position.advance_of_not_mem _ hfeed] at hadvance
  have hcol := congrArg Position.col hadvance
  rwa [Nat.zero_add] at hcol

theorem IsPlace.hasPosition {t : Text} {p : Position} (h : IsPlace t p) : t.HasPosition p := by
  obtain ⟨u, ⟨v, rfl⟩, hu⟩ := h
  have hline := Position.start.line_advance u
  rw [hu] at hline
  refine ⟨?_, ?_, ?_⟩
  · rw [hline]
    exact Nat.le_add_right _ _
  · rw [hline, List.count_append, Position.start]
    simp only
    omega
  · obtain ⟨-, part, -, -, hpart, hfeed, hlength⟩ := exists_eq_append_part v hu
    rw [← List.take_append_drop p.col (lineText (u ++ v) p.line), hpart,
      takeWhile_append_of_not_mem hfeed, List.length_append, hlength]
    exact Nat.le_add_right _ _

/-- The places of a text are the positions on its lines. -/
theorem isPlace_iff {t : Text} {p : Position} : IsPlace t p ↔ t.HasPosition p :=
  ⟨IsPlace.hasPosition, HasPosition.isPlace⟩

/-- Of two beginnings of a text the smaller one has the earlier position. -/
theorem size_lt_size_iff {t u u' : Text} (hu : u <+: t) (hu' : u' <+: t) :
    size u < size u' ↔ (Position.start.advance u).lt (Position.start.advance u') = true := by
  have hlonger : ∀ {a b : Text}, a <+: b → a ≠ b →
      size a < size b ∧ (Position.start.advance a).lt (Position.start.advance b) = true := by
    rintro a _ ⟨w, rfl⟩ hne
    obtain ⟨c, w, rfl⟩ : ∃ c w', w = c :: w' :=
      List.exists_cons_of_ne_nil fun hw => hne (by rw [hw, List.append_nil])
    have hpos := c.utf8Size_pos
    refine ⟨?_, ?_⟩
    · rw [size_append, size_cons]
      omega
    · rw [Position.advance_append]
      exact Position.lt_advance _ (List.cons_ne_nil c w)
  by_cases heq : u = u'
  · subst heq
    simp [Position.lt_iff]
  rcases List.prefix_or_prefix_of_prefix hu hu' with h | h
  · exact iff_of_true (hlonger h heq).1 (hlonger h heq).2
  · obtain ⟨hsize, hlt⟩ := hlonger h (Ne.symm heq)
    refine iff_of_false hsize.not_gt ?_
    rw [Bool.not_eq_true, Position.not_lt]
    exact Position.le_of_lt hlt

/-- **Offsets and positions correspond one to one and in order.** The position of a boundary is one of
the positions of the text, and its offset is the boundary; the offset of a position of the text is a
boundary, and its position is the position. One boundary is smaller than another if and only if its
position is read earlier. What stands before a column on its line is what stands between the offset of the
start of the line and that of the column. -/
theorem positions_correspond (t : Text) :
    (∀ o, isBoundary t o = true →
      ∃ p, position? t o = some p ∧ t.HasPosition p ∧ offset t p = o) ∧
    (∀ p, t.HasPosition p →
      isBoundary t (offset t p) = true ∧ position? t (offset t p) = some p) ∧
    (∀ o o' p p', isBoundary t o = true → isBoundary t o' = true → position? t o = some p →
      position? t o' = some p' → (o < o' ↔ p.lt p' = true)) ∧
    ∀ p, t.HasPosition p →
      slice? t (offset t ⟨p.line, 0⟩) (offset t p) = some ((lineText t p.line).take p.col) := by
  refine ⟨?_, ?_, ?_, ?_⟩
  · intro o ho
    obtain ⟨u, v, rfl, rfl⟩ := isBoundary_iff.1 ho
    have hplace : IsPlace (u ++ v) (Position.start.advance u) := ⟨u, List.prefix_append u v, rfl⟩
    exact ⟨_, position?_size u v, hplace.hasPosition, offset_advance u v⟩
  · intro p hp
    obtain ⟨u, ⟨v, rfl⟩, rfl⟩ := hp.isPlace
    rw [offset_advance]
    exact ⟨isBoundary_iff.2 ⟨u, v, rfl, rfl⟩, position?_size u v⟩
  · intro o o' p p' ho ho' hp hp'
    obtain ⟨u, v, rfl, rfl⟩ := isBoundary_iff.1 ho
    obtain ⟨u', v', h, rfl⟩ := isBoundary_iff.1 ho'
    rw [position?_size] at hp
    rw [h, position?_size] at hp'
    obtain rfl := Option.some.inj hp
    obtain rfl := Option.some.inj hp'
    exact size_lt_size_iff (List.prefix_append u v) ⟨v', h.symm⟩
  · intro p hp
    obtain ⟨u, ⟨v, rfl⟩, hu⟩ := hp.isPlace
    obtain ⟨before, part, rfl, hbefore, hpart, -, -⟩ := exists_eq_append_part v hu
    have hstart : offset (before ++ part ++ v) ⟨p.line, 0⟩ = size before := by
      rw [← hbefore, List.append_assoc, offset_advance]
    have hstop : offset (before ++ part ++ v) p = size (before ++ part) := by
      rw [← hu, offset_advance]
    rw [hstart, hstop, hpart, slice?_append_append]

/-- Characters of one, two and four bytes on two lines. -/
def wideText : Text := "aé\n😀x".toList

theorem positions_correspond_wideText :
    isBoundary wideText 8 = true ∧ position? wideText 8 = some ⟨2, 1⟩ ∧
      wideText.HasPosition ⟨2, 1⟩ ∧ offset wideText ⟨2, 1⟩ = 8 ∧
      position? wideText (offset wideText ⟨2, 1⟩) = some ⟨2, 1⟩ ∧
      (4 < 8 ↔ (⟨2, 0⟩ : Position).lt ⟨2, 1⟩ = true) ∧
      slice? wideText (offset wideText ⟨2, 0⟩) (offset wideText ⟨2, 1⟩) =
        some ((lineText wideText 2).take 1) := by
  obtain ⟨hoffset, hposition, horder, hslice⟩ := positions_correspond wideText
  have hboundary : isBoundary wideText 8 = true := by decide
  have hstart : isBoundary wideText 4 = true := by decide
  have hp : position? wideText 8 = some ⟨2, 1⟩ := by decide
  have hp' : position? wideText 4 = some ⟨2, 0⟩ := by decide
  have hhas : wideText.HasPosition ⟨2, 1⟩ := ⟨by decide, by decide, by decide⟩
  obtain ⟨p, hsome, -, hback⟩ := hoffset 8 hboundary
  obtain rfl := Option.some.inj (hp.symm.trans hsome)
  exact ⟨hboundary, hp, hhas, hback, (hposition ⟨2, 1⟩ hhas).2,
    horder 4 8 _ _ hstart hboundary hp' hp, hslice ⟨2, 1⟩ hhas⟩

end Text

end SourceSpans
