import SourceSpans.Text.Basic

/-!
# Lines, positions and offsets

A position is a line and a column. Lines count from one and end after a line feed, the only
character that ends a line; columns count characters from zero. A text has one more line than it
has line feeds, and the last one may be empty.

`Text.position?` reads the position of a byte offset, `Text.offset` the byte offset of a position.
Offsets past the end count as the end, and so do positions on lines past the last. A column past
the end of its line runs on over the following bytes.
-/

namespace SourceSpans

/-- A line, counted from one, and a column, counted in characters from zero. -/
structure Position where
  line : Nat
  col : Nat
  deriving DecidableEq, Repr

namespace Position

/-- The position of the first character of a text. -/
def start : Position := ⟨1, 0⟩

/-- Reading order: by line, then by column. -/
protected def lt (p q : Position) : Bool :=
  p.line < q.line || (p.line == q.line && p.col < q.col)

/-- Reading order, the same position included. -/
protected def le (p q : Position) : Bool := !q.lt p

theorem lt_iff {p q : Position} :
    p.lt q = true ↔ p.line < q.line ∨ p.line = q.line ∧ p.col < q.col := by
  simp [Position.lt]

theorem le_iff {p q : Position} :
    p.le q = true ↔ p.line < q.line ∨ p.line = q.line ∧ p.col ≤ q.col := by
  simp only [Position.le, Bool.not_eq_true', Bool.eq_false_iff, ne_eq, lt_iff]
  omega

/-- The position after a character that stands at this one. -/
def next (p : Position) (c : Char) : Position :=
  if c = '\n' then ⟨p.line + 1, 0⟩ else ⟨p.line, p.col + 1⟩

/-- The position after a text that starts at this one. -/
def advance (p : Position) (t : Text) : Position := t.foldl next p

@[simp] theorem advance_nil (p : Position) : p.advance [] = p := rfl

@[simp] theorem advance_cons (p : Position) (c : Char) (t : Text) :
    p.advance (c :: t) = (p.next c).advance t := rfl

@[simp] theorem advance_append (p : Position) (s t : Text) :
    p.advance (s ++ t) = (p.advance s).advance t := List.foldl_append

/-- How a position is written in messages. -/
def describe (p : Position) : String := toString p.line ++ ":" ++ toString p.col

end Position

namespace Text

/-- The position of an offset in a text that starts at `p`. -/
def positionFrom (p : Position) : Text → Nat → Option Position
  | _, 0 => some p
  | [], _ + 1 => some p
  | c :: rest, n + 1 =>
      if n + 1 < c.utf8Size then none else positionFrom (p.next c) rest (n + 1 - c.utf8Size)

/-- The position of a byte offset; none inside a character. -/
def position? (t : Text) (offset : Nat) : Option Position := positionFrom Position.start t offset

/-- The lines of a text, each with the line feed that ends it. The last line has none and may be
empty. -/
def lines : Text → List Text
  | [] => [[]]
  | c :: rest =>
      if c = '\n' then [c] :: lines rest
      else match lines rest with
        | [] => [[c]]
        | line :: others => (c :: line) :: others

/-- The number of lines that hold a character. -/
def lineCount (t : Text) : Nat := ((lines t).filter fun line => !line.isEmpty).length

/-- One of the lines, counted from one; empty if there is no such line. -/
def lineAt (lines : List Text) (line : Nat) : Text :=
  if line = 0 then [] else lines[line - 1]?.getD []

/-- A line with the line feed that ends it; empty if there is no such line. -/
def lineText (t : Text) (line : Nat) : Text := lineAt (lines t) line

/-- The byte column of a character column. Reading starts at byte column `at`, and every
character that starts before the column moves it on by the bytes it has beyond the first. -/
def byteColumn (col : Nat) : (startsAt : Nat) → Text → Nat
  | _, [] => col
  | startsAt, c :: rest =>
      if startsAt < col then byteColumn (col + (c.utf8Size - 1)) (startsAt + c.utf8Size) rest
      else col

/-- Lines, each after the offset where it starts, when the first of them starts at `start`. -/
def placedFrom (start : Nat) : List Text → List (Nat × Text)
  | [] => []
  | line :: rest => (start, line) :: placedFrom (start + size line) rest

end Text

/-- The lines of a text, each after the offset where it starts, and the size of the text. -/
structure LineMap where
  lines : Array (Nat × Text)
  size : Nat
  deriving DecidableEq, Repr

namespace LineMap

/-- The lines of a text. -/
def ofText (t : Text) : LineMap := ⟨(Text.placedFrom 0 (Text.lines t)).toArray, Text.size t⟩

/-- The byte offset of a position, the end of the text at most. -/
def offset (m : LineMap) (p : Position) : Nat :=
  if p.line = 0 then 0
  else match m.lines[p.line - 1]? with
    | none => m.size
    | some (start, line) => min m.size (start + Text.byteColumn p.col 0 line)

end LineMap

namespace Text

/-- The byte offset of a position, the end of the text at most. -/
def offset (t : Text) (p : Position) : Nat := (LineMap.ofText t).offset p

/-- A line starts after all the bytes of the lines before it. -/
theorem getElem?_placedFrom (start : Nat) (ls : List Text) (i : Nat) :
    (placedFrom start ls)[i]? =
      ls[i]?.map fun line => (start + size (ls.take i).flatten, line) := by
  induction ls generalizing start i with
  | nil => simp [placedFrom]
  | cons l ls ih =>
    obtain _ | i := i
    · simp [placedFrom]
    · simp only [placedFrom, List.getElem?_cons_succ, ih, List.take_succ_cons, List.flatten_cons,
        size_append, Nat.add_assoc]

/-- The offset of a position: the bytes of the lines before it and its byte column. -/
theorem offset_eq (t : Text) (p : Position) :
    offset t p =
      if p.line = 0 then 0
      else match (lines t)[p.line - 1]? with
        | none => size t
        | some line =>
            min (size t)
              (size ((lines t).take (p.line - 1)).flatten + byteColumn p.col 0 line) := by
  simp only [offset, LineMap.offset, LineMap.ofText, List.getElem?_toArray, getElem?_placedFrom]
  split
  · rfl
  · cases (lines t)[p.line - 1]? <;> simp

end Text

end SourceSpans
