import SourceSpans.Text.CodePoints

/-!
# Blank characters

The Unicode property `White_Space`, as intervals of code points.
-/

namespace SourceSpans.Text

/-- Intervals of `White_Space`. -/
def blanks : List (Nat × Nat) :=
  [(0x9, 0xD), (0x20, 0x20), (0x85, 0x85), (0xA0, 0xA0), (0x1680, 0x1680), (0x2000, 0x200A),
   (0x2028, 0x2029), (0x202F, 0x202F), (0x205F, 0x205F), (0x3000, 0x3000)]

/-- Whether a character has the property `White_Space`. -/
def isBlank (c : Char) : Bool := inIntervals blanks c.toNat

/-- Whether a text shows nothing: it is empty or all of its characters are blank. -/
def isAllBlank (t : List Char) : Bool := t.all isBlank

end SourceSpans.Text
