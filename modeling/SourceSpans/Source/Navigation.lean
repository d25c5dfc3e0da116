import SourceSpans.Source.Basic
import SourceSpans.Source.IndexSearch

/-!
# Moving between tokens

Tokens are looked up by index, by byte offset and by position, and from one token to the next, the
previous, and the nearest of a kind. Comments and line breaks inside a logical line are passed over
unless they are asked for.

A token passed in may come from another source; then its index alone counts, and an index past the
end of this source finds nothing.
-/

namespace SourceSpans.Source

/-- The token with an index. -/
def token? (s : Source) (index : Nat) : Option Token := s.tokens[index]?

/-- Whether there is a token with this index that has a property. -/
def holdsAt (s : Source) (p : Token → Bool) (index : Nat) : Bool :=
  match s.tokens[index]? with
  | some t => p t
  | none => false

theorem holdsAt_eq {s : Source} {i : Nat} {t : Token} (h : s.tokens[i]? = some t) (p : Token → Bool) :
    s.holdsAt p i = p t := by
  rw [holdsAt, h]

theorem holdsAt_eq_true_iff {s : Source} {p : Token → Bool} {i : Nat} :
    s.holdsAt p i = true ↔ ∃ t, s.tokens[i]? = some t ∧ p t = true := by
  unfold holdsAt
  rcases s.tokens[i]? with _ | t <;> simp

theorem lt_size_of_holdsAt {s : Source} {p : Token → Bool} {i : Nat} (h : s.holdsAt p i = true) :
    i < s.size := by
  obtain ⟨t, ht, -⟩ := holdsAt_eq_true_iff.1 h
  exact (Array.getElem?_eq_some_iff.1 ht).1

/-- Whether a token is met on the way. -/
def isMet (includeExtra : Bool) (t : Token) : Bool := includeExtra || !t.kind.isNonCoding

/-- The token that holds a byte offset, or else the nearest token before it. -/
def tokenAtOffset? (s : Source) (offset : Nat) : Option Token :=
  match border (s.holdsAt fun t => t.startOffset ≤ offset) s.size with
  | 0 => none
  | index + 1 => s.tokens[index]?

/-- The token at a position. -/
def tokenAt? (s : Source) (p : Position) : Option Token :=
  s.tokenAtOffset? (Text.offset s.text p)

/-- The token after a token. -/
def next? (s : Source) (t : Token) (includeExtra : Bool) : Option Token :=
  (findUp (s.holdsAt (isMet includeExtra)) (t.index + 1) s.size).bind s.token?

/-- The token before a token. -/
def previous? (s : Source) (t : Token) (includeExtra : Bool) : Option Token :=
  if t.index ≤ s.size then
    (findDown (s.holdsAt (isMet includeExtra)) 0 t.index).bind s.token?
  else none

/-- The first token from a token on that has a kind and, if one is given, a text. -/
def find? (s : Source) (t : Token) (kind : TokenKind) (text? : Option Text) : Option Token :=
  (findUp (s.holdsAt (·.fits kind text?)) t.index s.size).bind s.token?

/-- The last token up to a token that has a kind and, if one is given, a text. -/
def findBack? (s : Source) (t : Token) (kind : TokenKind) (text? : Option Text) : Option Token :=
  if t.index < s.size then
    (findDown (s.holdsAt (·.fits kind text?)) 0 (t.index + 1)).bind s.token?
  else none

/-- The tokens from one to another, both included. -/
def between (s : Source) (first last : Token) (includeExtra : Bool) : List Token :=
  (s.tokens.extract first.index (min last.index (s.size - 1) + 1)).toList.filter
    (isMet includeExtra)

end SourceSpans.Source
