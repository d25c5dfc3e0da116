import SourceSpans.Mark.Brackets
import SourceSpans.Policy.Table
import SourceSpans.Source.Navigation
import SourceSpans.Tree.Basic

/-!
# Finding the tokens of a node

A `Marker` is what marking a tree looks things up in: a source, a policy table, and the partners of
the brackets. This module finds single things among the tokens: the next and the previous coding
token, a sequence of patterns at a place, before a place or after a place, the first place where
one of several sequences matches, and a literal.

Comments and line breaks inside a logical line are passed over everywhere. Searches stop at
brackets that close what was opened further out.
-/

namespace SourceSpans

/-- The tokens from one to another, both included. -/
structure Span where
  first : Nat
  last : Nat
  deriving DecidableEq, Repr

/-- The least span that holds two spans. -/
def Span.union (a b : Span) : Span := ⟨min a.first b.first, max a.last b.last⟩

/-- A source and a policy table, with the partner of each bracket. -/
structure Marker where
  source : Source
  policy : PolicyTable
  partners : Array (Option Nat)
  partners_lt : ∀ i p : Nat, partners[i]? = some (some p) → p < source.size

namespace Marker

/-- Make ready to mark trees against a source. -/
def new (source : Source) (policy : PolicyTable) : Marker where
  source := source
  policy := policy
  partners := bracketPartners source.tokens
  partners_lt _ _ h := lt_of_bracketPartners_eq_some h

variable (m : Marker)

/-- The number of tokens. -/
def size : Nat := m.source.size

/-- The partner of a bracket. -/
def partner? (i : Nat) : Option Nat := (m.partners[i]?).join

theorem partner?_lt {m : Marker} {i p : Nat} (h : m.partner? i = some p) : p < m.size :=
  m.partners_lt i p (Option.join_eq_some_iff.1 h)

/-- Whether a token is of a kind. -/
def hasKind (kind : TokenKind) (i : Nat) : Bool := m.source.holdsAt (·.kind == kind) i

/-- Whether a token is a coding one. -/
def isCoding (i : Nat) : Bool := m.source.holdsAt (fun t => !t.kind.isNonCoding) i

/-- Whether a pattern matches a token. -/
def admits (p : Pattern) (i : Nat) : Bool := m.source.holdsAt p.admits i

/-- Whether a token closes a bracket that was not opened at or after `bound`. -/
def closesBefore (bound i : Nat) : Bool :=
  m.source.holdsAt (·.isCloser) i && (m.partner? i).all (· < bound)

/-- The coding token after a token. -/
def codingAfter? (i : Nat) : Option Nat := findUp m.isCoding (i + 1) m.size

/-- The coding token before a token, no further back than `floor`. -/
def codingBefore? (i floor : Nat) : Option Nat := findDown m.isCoding floor i

theorem codingBefore?_lt {m : Marker} {i floor j : Nat} (h : m.codingBefore? i floor = some j) :
    j < i := (findDown_eq_some_iff.1 h).2.1

/-! ### Sequences of patterns -/

/-- Whether a stretch of passed tokens that began after `start` may not go past a token: it never
leaves its logical line or the brackets it began in. -/
def endsSkip (start i : Nat) : Bool :=
  m.hasKind .newline i || m.hasKind .endMarker i || m.closesBefore start i

/-- The first coding token after `i` that a pattern matches, if nothing on the way ends a stretch
that began after `start`. -/
def skipTo? (p : Pattern) (start i : Nat) : Option Nat :=
  (findUp (fun j => m.isCoding j && (m.admits p j || m.endsSkip start j)) (i + 1) m.size).filter
    (m.admits p)

/-- The last token of a match of the patterns after token `i`, where the whole match began at
`start`. -/
def forwardFrom (start : Nat) : (skipping : Bool) → (i : Nat) → PatternSequence → Option Nat
  | _, i, [] => some i
  | skipping, i, p :: rest =>
      if p = .skip then forwardFrom start true i rest
      else if skipping then (m.skipTo? p start i).bind fun j => forwardFrom start false j rest
      else ((m.codingAfter? i).filter (m.admits p)).bind fun j => forwardFrom start false j rest

/-- The last token of a match that begins at a token. -/
def forwardAt? (ps : PatternSequence) (i : Nat) : Option Nat :=
  match ps with
  | [] => none
  | p :: rest => if m.admits p i then m.forwardFrom i false i rest else none

/-- The last token of the first of several sequences that matches at a token. -/
def anyForwardAt? (alternatives : List PatternSequence) (i : Nat) : Option Nat :=
  alternatives.findSome? fun ps => m.forwardAt? ps i

/-- Whether a search for a node that may use no token before `floor` ends at a token. -/
def endsSearch (floor i : Nat) : Bool := m.hasKind .endMarker i || m.closesBefore floor i

/-- The first match of one of several sequences from a token on. -/
def search? (alternatives : List PatternSequence) (i floor : Nat) : Option Span :=
  let hit := fun j =>
    m.endsSearch floor j || (m.isCoding j && (m.anyForwardAt? alternatives j).isSome)
  ((findUp hit i m.size).filter fun j => !m.endsSearch floor j).bind fun j =>
    (m.anyForwardAt? alternatives j).map fun last => ⟨j, last⟩

/-- The first token of a match of patterns, given last to first, right before token `i`. -/
def leadFrom (floor : Nat) : (i : Nat) → List Pattern → Option Nat
  | i, [] => some i
  | i, p :: rest =>
      ((m.codingBefore? i floor).filter (m.admits p)).bind fun j => leadFrom floor j rest

/-- The first token of a match that ends right before a token. -/
def leadAt? (ps : PatternSequence) (first floor : Nat) : Option Nat :=
  m.leadFrom floor first ps.reverse

/-- The last token of a match of patterns right after token `i`, for a node that begins at
`first`. -/
def trailFrom (first : Nat) : (i : Nat) → PatternSequence → Option Nat
  | i, [] => some i
  | i, p :: rest =>
      ((m.codingAfter? i).filter fun j => !m.endsSearch first j && m.admits p j).bind fun j =>
        trailFrom first j rest

/-- The last token of a match that starts right after a span. -/
def trailAt? (ps : PatternSequence) (span : Span) : Option Nat :=
  m.trailFrom span.first span.last ps

/-! ### Literals -/

/-- The first of `count` tokens from `i` on up to whose end the source, from `start`, spells a
text; none once it is longer or no slice of the source. -/
def spellFrom (text : Text) (start : Nat) : (i count : Nat) → Option Nat
  | _, 0 => none
  | i, count + 1 =>
      match Text.slice? m.source.text start (m.source.stopOffset i) with
      | none => none
      | some slice =>
          if Text.size text < Text.size slice then none
          else if slice = text then some i
          else spellFrom text start (i + 1) count

/-- The last token of the shortest run of tokens from `i` on that spells a text. The first of them
has to be a non-empty beginning of the text. -/
def spellAt? (text : Text) (i : Nat) : Option Nat :=
  match m.source.tokens[i]? with
  | none => none
  | some t =>
      if t.text.isEmpty || !t.text.isPrefixOf text then none
      else if t.text = text then some i
      else m.spellFrom text t.startOffset (i + 1) (m.size - (i + 1))

/-- The first and shortest run of tokens from `i` on that spells a text. -/
def findText? (text : Text) (i : Nat) : Option Span :=
  (findUp (fun j => (m.spellAt? text j).isSome) i m.size).bind fun j =>
    (m.spellAt? text j).map fun last => ⟨j, last⟩

/-- Runs of tokens that spell texts one after the other, after a span; the span from its first
token to the last of theirs. -/
def findWordsAfter? (span : Span) : List Text → Option Span
  | [] => some span
  | w :: rest =>
      (m.findText? w (span.last + 1)).bind fun s => findWordsAfter? ⟨span.first, s.last⟩ rest

/-- Runs of tokens from `i` on that spell texts one after the other. -/
def findWords? (i : Nat) : List Text → Option Span
  | [] => none
  | w :: rest => (m.findText? w i).bind fun s => m.findWordsAfter? s rest

/-- The first token of a kind from `i` on. -/
def findKind? (kind : TokenKind) (i : Nat) : Option Nat := findUp (m.hasKind kind) i m.size

/-- The first run of string tokens from `i` on. -/
def findStrings? (i : Nat) : Option Span :=
  (m.findKind? .string i).map fun first =>
    let stop := (findUp (fun j => m.isCoding j && !m.hasKind .string j) (first + 1) m.size).getD
      m.size
    ⟨first, (findDown (m.hasKind .string) first stop).getD first⟩

/-- The first number token from `i` on, with a minus right before it if the number is negative. -/
def findNumber? (isNegative : Bool) (i : Nat) : Option Span :=
  (m.findKind? .number i).map fun index =>
    let minus? := (m.codingBefore? index i).filter
      (m.source.holdsAt fun t => t.fits .op (some ['-']))
    ⟨if isNegative then minus?.getD index else index, index⟩

/-- The tokens of a literal from `i` on. -/
def findLiteral? (literal : Literal) (i : Nat) : Option Span :=
  match literal with
  | .text t => m.findText? t i
  | .strings => m.findStrings? i
  | .number isNegative => m.findNumber? isNegative i
  | .token kind => (m.findKind? kind i).map fun j => ⟨j, j⟩
  | .words ws => m.findWords? i ws

end Marker

end SourceSpans
