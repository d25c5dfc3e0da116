import SourceSpans.Token.Basic
import SourceSpans.Text.Blank

/-!
# Token patterns

A pattern stands for one position in a sequence of tokens: an operator or name with an exact text,
any token of a kind, or a stretch of tokens to be passed over. Patterns are written as strings; a
dollar sign starts the name of a token class.
-/

namespace SourceSpans

/-- One position in a sequence of tokens. -/
inductive Pattern
  /-- An operator or a name with this text. -/
  | text (t : Text)
  /-- Any token of a kind. -/
  | kind (k : TokenKind)
  /-- The tokens up to one that matches the next pattern, in the same logical line. -/
  | skip
  deriving DecidableEq, Repr

/-- Why a string is no pattern. -/
inductive PatternError
  | empty
  | unknownClass (name : Text)
  deriving DecidableEq, Repr

namespace PatternError

/-- What went wrong. -/
def message : PatternError → String
  | empty => "empty token pattern"
  | unknownClass name => "unknown token class '$" ++ String.ofList name ++ "'"

end PatternError

namespace Pattern

/-- Whether one token matches. No single token matches a stretch. -/
def admits : Pattern → Token → Bool
  | text s, t => (t.kind == .op || t.kind == .name) && t.text == s
  | kind k, t => t.kind == k
  | skip, _ => false

/-- The token classes that have a name in patterns. -/
def classes : List (Text × TokenKind) :=
  [("name".toList, .name), ("op".toList, .op), ("string".toList, .string),
   ("number".toList, .number)]

/-- The pattern that a text writes. -/
def parse : Text → Except PatternError Pattern
  | '$' :: name =>
      if name = ['*'] then .ok skip
      else match classes.lookup name with
        | some k => .ok (kind k)
        | none => .error (.unknownClass name)
  | t => if Text.isAllBlank t then .error .empty else .ok (text t)

/-- An operator or a name with the text of a string. -/
def token (s : String) : Pattern := text s.toList

/-- Any name. -/
def anyName : Pattern := kind .name

/-- How a pattern is written in messages. -/
def describe : Pattern → String
  | text t => Text.quoted t
  | kind k => "$" ++ k.label.toLower
  | skip => "$*"

end Pattern

/-- Patterns for tokens one after the other. -/
abbrev PatternSequence := List Pattern

end SourceSpans
