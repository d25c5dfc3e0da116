import Mathlib.Tactic.Common
import SourceSpans.Text.Position

/-!
# What stands at the boundaries of a text

A boundary of a text is the size of a beginning of it (`Text.isBoundary_iff`). The part from one
boundary to another is what stands after so many bytes and before so many
(`Text.slice?_eq_some_iff`), and there is such a part between any two boundaries
(`Text.exists_slice?_eq_some`). The position of a boundary is the place after its beginning
(`Text.position?_size`), and its offset counts the bytes before it (`Text.length_utf8`).
-/

namespace SourceSpans.Text

variable {t u v part : Text} {start stop : Nat}

theorem size_pos (h : t ≠ []) : 0 < size t := by
  cases t with
  | nil => exact absurd rfl h
  | cons c t =>
    rw [size_cons]
    exact Nat.add_pos_left c.utf8Size_pos _

theorem size_le_of_isPrefix (h : u <+: t) : size u ≤ size t := by
  obtain ⟨v, rfl⟩ := h
  rw [size_append]
  exact Nat.le_add_right _ _

/-- A boundary is the size of a beginning. -/
theorem isBoundary_iff : isBoundary t start = true ↔ ∃ u v, t = u ++ v ∧ size u = start := by
  rw [isBoundary, Option.isSome_iff_exists]
  constructor
  · rintro ⟨⟨u, v⟩, hcut⟩
    exact ⟨u, v, splitAt?_eq_some_iff.1 hcut⟩
  · rintro ⟨u, v, hcut⟩
    exact ⟨(u, v), splitAt?_eq_some_iff.2 hcut⟩

theorem le_size_of_isBoundary (h : isBoundary t start = true) : start ≤ size t := by
  obtain ⟨u, v, rfl, rfl⟩ := isBoundary_iff.1 h
  exact size_le_of_isPrefix (List.prefix_append u v)

/-- The part from one boundary to another starts after the one and stops at the other. -/
theorem slice?_eq_some_iff : slice? t start stop = some part ↔
    ∃ u v, t = u ++ part ++ v ∧ size u = start ∧ size u + size part = stop := by
  unfold slice?
  constructor
  · intro h
    split_ifs at h with hle
    obtain ⟨⟨u, rest⟩, hstart, h⟩ := Option.bind_eq_some_iff.1 h
    obtain ⟨⟨middle, v⟩, hstop, h⟩ := Option.bind_eq_some_iff.1 h
    obtain rfl : middle = part := Option.some.inj h
    obtain ⟨rfl, rfl⟩ := splitAt?_eq_some_iff.1 hstart
    obtain ⟨rfl, hsize⟩ := splitAt?_eq_some_iff.1 hstop
    refine ⟨u, v, ?_, rfl, ?_⟩
    · rw [List.append_assoc]
    · omega
  · rintro ⟨u, v, rfl, rfl, rfl⟩
    have hstart : splitAt? (u ++ part ++ v) (size u) = some (u, part ++ v) :=
      splitAt?_eq_some_iff.2 ⟨List.append_assoc _ _ _, rfl⟩
    have hstop : splitAt? (part ++ v) (size part) = some (part, v) :=
      splitAt?_eq_some_iff.2 ⟨rfl, rfl⟩
    rw [if_pos (Nat.le_add_right _ _), hstart]
    simp [hstop]

/-- A boundary after a beginning cuts what follows the beginning. -/
theorem exists_append_of_isBoundary (hle : size u ≤ stop) (hstop : isBoundary (u ++ v) stop = true) :
    ∃ part rest, v = part ++ rest ∧ size (u ++ part) = stop := by
  obtain ⟨u', v', h, rfl⟩ := isBoundary_iff.1 hstop
  rcases List.append_eq_append_iff.1 h with ⟨part, rfl, rfl⟩ | ⟨rest, rfl, rfl⟩
  · exact ⟨part, v', rfl, rfl⟩
  · refine ⟨[], v, rfl, ?_⟩
    rw [size_append] at hle
    rw [List.append_nil, size_append]
    omega

/-- A boundary that is not past a beginning of a text is a boundary of the beginning. -/
theorem isBoundary_of_append (hle : stop ≤ size u) (hstop : isBoundary (u ++ v) stop = true) :
    isBoundary u stop = true := by
  obtain ⟨u', v', h, rfl⟩ := isBoundary_iff.1 hstop
  rcases List.append_eq_append_iff.1 h with ⟨part, rfl, rfl⟩ | ⟨rest, rfl, rfl⟩
  · cases part with
    | nil => exact isBoundary_iff.2 ⟨u, [], (List.append_nil u).symm, by rw [List.append_nil]⟩
    | cons c part =>
      have hpos := c.utf8Size_pos
      rw [size_append, size_cons] at hle
      omega
  · exact isBoundary_iff.2 ⟨u', rest, rfl, rfl⟩

theorem size_of_slice?_eq_some (h : slice? t start stop = some part) : start + size part = stop := by
  obtain ⟨u, v, -, rfl, hstop⟩ := slice?_eq_some_iff.1 h
  exact hstop

/-- Of two parts with one start, the one that stops first begins the other. -/
theorem isPrefix_of_slice?_eq_some {part' : Text} {stop' : Nat} (h : slice? t start stop = some part)
    (h' : slice? t start stop' = some part') (hle : stop ≤ stop') : part <+: part' := by
  have hsize := size_of_slice?_eq_some h
  have hsize' := size_of_slice?_eq_some h'
  obtain ⟨u, v, hcut, hstart, -⟩ := slice?_eq_some_iff.1 h
  obtain ⟨u', v', hcut', hstart', -⟩ := slice?_eq_some_iff.1 h'
  rw [List.append_assoc] at hcut hcut'
  have hsplit := splitAt?_eq_some_iff.2 ⟨hcut, hstart⟩
  have hsplit' := splitAt?_eq_some_iff.2 ⟨hcut', hstart'⟩
  obtain ⟨-, hrest⟩ := Prod.mk.inj (Option.some.inj (hsplit.symm.trans hsplit'))
  rcases List.append_eq_append_iff.1 hrest with ⟨more, rfl, -⟩ | ⟨more, rfl, -⟩
  · exact List.prefix_append part more
  · -- what the first part has more is empty, for it stops no later than the second
    cases more with
    | nil => exact ⟨[], by rw [List.append_nil, List.append_nil]⟩
    | cons c more =>
      have hpos := c.utf8Size_pos
      rw [size_append, size_cons] at hsize
      omega

/-- What stands after a beginning and before an end. -/
theorem slice?_append_append (u part v : Text) :
    slice? (u ++ part ++ v) (size u) (size (u ++ part)) = some part :=
  slice?_eq_some_iff.2 ⟨u, v, rfl, rfl, (size_append u part).symm⟩

/-- Between two boundaries there is a part. -/
theorem exists_slice?_eq_some (hle : start ≤ stop) (hstart : isBoundary t start = true)
    (hstop : isBoundary t stop = true) : ∃ part, slice? t start stop = some part := by
  obtain ⟨u, v, rfl, rfl⟩ := isBoundary_iff.1 hstart
  obtain ⟨u', v', h, rfl⟩ := isBoundary_iff.1 hstop
  rcases List.append_eq_append_iff.1 h with ⟨part, rfl, rfl⟩ | ⟨rest, rfl, rfl⟩
  · refine ⟨part, slice?_eq_some_iff.2 ⟨u, v', ?_, rfl, ?_⟩⟩
    · rw [List.append_assoc]
    · rw [size_append]
  · -- the second boundary is not before the first, so what is between them is empty
    rw [size_append] at hle
    refine ⟨[], slice?_eq_some_iff.2 ⟨u' ++ rest, v, ?_, rfl, ?_⟩⟩
    · simp
    · rw [size_append, size_nil]
      omega

theorem positionFrom_size (p : Position) (u v : Text) :
    positionFrom p (u ++ v) (size u) = some (p.advance u) := by
  induction u generalizing p with
  | nil => cases v <;> rfl
  | cons c u ih =>
    obtain ⟨n, hn⟩ : ∃ n, size (c :: u) = n + 1 := by
      have hpos := c.utf8Size_pos
      exact ⟨size (c :: u) - 1, by rw [size_cons]; omega⟩
    have hrest : n + 1 - c.utf8Size = size u := by
      rw [← hn, size_cons]
      omega
    have hle : ¬ n + 1 < c.utf8Size := by
      rw [← hn, size_cons]
      omega
    rw [hn, List.cons_append, positionFrom, if_neg hle, hrest, ih, Position.advance_cons]

/-- The position of a boundary is the position after the beginning that it ends. -/
theorem position?_size (u v : Text) :
    position? (u ++ v) (size u) = some (Position.start.advance u) := positionFrom_size _ u v

theorem exists_position?_eq_some (h : isBoundary t start = true) : ∃ p, position? t start = some p := by
  obtain ⟨u, v, rfl, rfl⟩ := isBoundary_iff.1 h
  exact ⟨_, position?_size u v⟩

/-! ### Bytes -/

@[simp] theorem utf8_nil : utf8 [] = [] := rfl

@[simp] theorem utf8_append (u v : Text) : utf8 (u ++ v) = utf8 u ++ utf8 v := List.flatMap_append

/-- The size of a text is the number of its bytes. -/
@[simp] theorem length_utf8 (t : Text) : (utf8 t).length = size t := by
  induction t with
  | nil => rfl
  | cons c t ih =>
    rw [utf8, List.flatMap_cons, List.length_append, String.length_utf8EncodeChar, size_cons]
    exact congrArg (c.utf8Size + ·) ih

end SourceSpans.Text
