import SourceSpans.Text.Position
import SourceSpans.Text.Quoted

/-!
# Tokens

A token has a kind, its text, the positions where it starts and stops, and the physical line it
starts on. Once the tokens of a source are put in order each also knows its index and the byte
offsets of its ends (`Token`).

Comments and line breaks inside a logical line carry no syntax; all other kinds are *coding*.
-/

namespace SourceSpans

/-- The lexical category of a token. -/
inductive TokenKind
  | name
  | number
  | string
  | op
  | comment
  /-- The end of a logical line. -/
  | newline
  /-- A line break that ends no logical line. -/
  | nl
  | indent
  | dedent
  | endMarker
  /-- A character that belongs to no token. -/
  | errorToken
  deriving DecidableEq, Repr

namespace TokenKind

/-- The kinds in the order they are declared. -/
def all : List TokenKind :=
  [name, number, string, op, comment, newline, nl, indent, dedent, endMarker, errorToken]

/-- How a kind is written. -/
def label : TokenKind → String
  | name => "NAME"
  | number => "NUMBER"
  | string => "STRING"
  | op => "OP"
  | comment => "COMMENT"
  | newline => "NEWLINE"
  | nl => "NL"
  | indent => "INDENT"
  | dedent => "DEDENT"
  | endMarker => "ENDMARKER"
  | errorToken => "ERRORTOKEN"

/-- The kind that is written so. -/
def ofLabel? (s : String) : Option TokenKind := all.find? fun k => k.label == s

theorem ofLabel?_label (k : TokenKind) : ofLabel? k.label = some k := by
  cases k <;> decide

/-- Comments and line breaks inside a logical line carry no syntax. -/
def isNonCoding : TokenKind → Bool
  | comment | nl => true
  | _ => false

/-- Kinds that only lay out lines. -/
def isLayout : TokenKind → Bool
  | comment | nl | newline | indent | dedent => true
  | _ => false

end TokenKind

/-- A token as it is read, before it has a place in a source. -/
structure RawToken where
  kind : TokenKind
  text : Text
  start : Position
  stop : Position
  /-- The physical line the token starts on. -/
  line : Text
  deriving DecidableEq, Repr

/-- A token with its index in a source and the byte offsets of its two ends. -/
structure Token extends RawToken where
  index : Nat
  startOffset : Nat
  stopOffset : Nat
  deriving DecidableEq, Repr

namespace Token

/-- Whether the token is an opening bracket. -/
def isOpener (t : Token) : Bool :=
  t.kind == .op && (t.text == ['('] || t.text == ['['] || t.text == ['\x7b'])

/-- Whether the token is a closing bracket. -/
def isCloser (t : Token) : Bool :=
  t.kind == .op && (t.text == [')'] || t.text == [']'] || t.text == ['\x7d'])

/-- Whether the token has a given kind and, if one is given, a given text. -/
def fits (t : Token) (kind : TokenKind) (text? : Option Text) : Bool :=
  t.kind == kind && match text? with
    | none => true
    | some text => t.text == text

/-- How a token is written in messages. -/
def describe (t : Token) : String := t.kind.label ++ ":" ++ Text.quoted t.text

end Token

/-- A token was found where another was wanted. -/
structure TokenMismatch where
  expected : String
  found : String
  place : Position
  deriving DecidableEq, Repr

namespace TokenMismatch

/-- What went wrong. -/
def message (m : TokenMismatch) : String :=
  "expected token " ++ m.expected ++ ", got " ++ m.found ++ " on line " ++ toString m.place.line
    ++ " col " ++ toString m.place.col

end TokenMismatch

/-- The token itself if it has the given kind and, if one is given, the given text. -/
def Token.expect (t : Token) (kind : TokenKind) (text? : Option Text) :
    Except TokenMismatch Token :=
  if t.fits kind text? then .ok t
  else .error {
    expected := match text? with
      | none => kind.label
      | some text => kind.label ++ ":" ++ Text.quoted text
    found := t.describe
    place := t.start }

end SourceSpans
