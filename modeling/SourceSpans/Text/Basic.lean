/-!
# Texts and byte offsets

A text is a list of Unicode characters. Offsets into it count the bytes of its UTF-8 form, so
only some offsets lie between two characters: the *boundaries*. `Text.splitAt?` cuts a text at a
boundary and answers nothing elsewhere; `Text.slice?` takes the part between two boundaries.

The laws kept here say that a cut loses nothing and measures what it says
(`splitAt?_eq_some_iff`).
-/

namespace SourceSpans

/-- A text: its characters in order. -/
abbrev Text := List Char

namespace Text

/-- The number of bytes of the UTF-8 form. -/
def size : Text → Nat
  | [] => 0
  | c :: rest => c.utf8Size + size rest

@[simp] theorem size_nil : size [] = 0 := rfl

@[simp] theorem size_cons (c : Char) (t : Text) : size (c :: t) = c.utf8Size + size t := rfl

@[simp] theorem size_append (s t : Text) : size (s ++ t) = size s + size t := by
  induction s with
  | nil => simp
  | cons c s ih => simp [ih, Nat.add_assoc]

/-- Cut a text at a byte offset. There is no cut inside a character or past the end. -/
def splitAt? : Text → Nat → Option (Text × Text)
  | t, 0 => some ([], t)
  | [], _ + 1 => none
  | c :: rest, n + 1 =>
      if n + 1 < c.utf8Size then none
      else (splitAt? rest (n + 1 - c.utf8Size)).map fun (before, after) => (c :: before, after)

@[simp] theorem splitAt?_zero (t : Text) : splitAt? t 0 = some ([], t) := by
  cases t <;> rfl

theorem splitAt?_cons_of_le {c : Char} {t : Text} {o : Nat} (h : c.utf8Size ≤ o) :
    splitAt? (c :: t) o =
      (splitAt? t (o - c.utf8Size)).map fun (before, after) => (c :: before, after) := by
  have := c.utf8Size_pos
  obtain _ | n := o
  · omega
  · simp [splitAt?, Nat.not_lt.2 h]

/-- The cut is where it is said to be, and the two parts make up the text. -/
theorem splitAt?_eq_some_iff {t a b : Text} {o : Nat} :
    splitAt? t o = some (a, b) ↔ t = a ++ b ∧ size a = o := by
  induction t generalizing a o with
  | nil =>
    obtain _ | n := o
    · cases a <;> simp [splitAt?, eq_comm]
    · simp only [splitAt?, reduceCtorEq, false_iff, not_and]
      intro h
      obtain ⟨rfl, rfl⟩ := List.nil_eq_append_iff.1 h
      simp
  | cons c t ih =>
    by_cases ho : o = 0
    · subst ho
      obtain _ | ⟨d, a⟩ := a
      · simp [eq_comm]
      · have := d.utf8Size_pos
        simp only [splitAt?_zero, Option.some.injEq, Prod.mk.injEq, List.nil_eq, reduceCtorEq,
          false_and, size_cons, false_iff, not_and]
        omega
    · by_cases hc : c.utf8Size ≤ o
      · rw [splitAt?_cons_of_le hc]
        simp only [Option.map_eq_some_iff, Prod.exists, Prod.mk.injEq]
        constructor
        · rintro ⟨x, y, hxy, rfl, rfl⟩
          obtain ⟨rfl, hs⟩ := ih.1 hxy
          exact ⟨rfl, by rw [size_cons]; omega⟩
        · rintro ⟨h, hs⟩
          obtain _ | ⟨d, a⟩ := a
          · simp at hs; omega
          · obtain ⟨rfl, rfl⟩ := List.cons_eq_cons.1 h
            rw [size_cons] at hs
            exact ⟨a, b, ih.2 ⟨rfl, by omega⟩, rfl, rfl⟩
      · obtain _ | n := o
        · exact absurd rfl ho
        · simp only [splitAt?, Nat.not_le.1 hc, if_true, reduceCtorEq, false_iff, not_and]
          intro h hs
          obtain _ | ⟨d, a⟩ := a
          · simp at hs
          · obtain ⟨rfl, rfl⟩ := List.cons_eq_cons.1 h
            rw [size_cons] at hs
            omega

/-- Whether an offset lies between two characters, at the start or at the end. -/
def isBoundary (t : Text) (offset : Nat) : Bool := (splitAt? t offset).isSome

/-- The part of a text from one boundary to a later one. -/
def slice? (t : Text) (start stop : Nat) : Option Text :=
  if start ≤ stop then do
    let (_, rest) ← splitAt? t start
    let (part, _) ← splitAt? rest (stop - start)
    return part
  else none

/-- The bytes of the UTF-8 form. -/
def utf8 (t : Text) : List UInt8 := t.flatMap String.utf8EncodeChar

end Text

end SourceSpans
