import SourceSpans.Token.Layout
import SourceSpans.Text.Identifier

/-!
# Joining split identifiers

A tokenizer that knows only ASCII names cuts an identifier such as `℘·2` into adjacent pieces:
names, numbers and single error tokens. `normalize` joins the pieces of each identifier into one
name and leaves every other token as it is.

From each token on, the longest stretch of adjacent pieces that spells an identifier is taken
(`stretchLength`); it is joined if it holds an error token (`join`).
-/

namespace SourceSpans

namespace RawToken

/-- Whether a token may be a piece of an identifier. -/
def isPiece (t : RawToken) : Bool :=
  match t.kind with
  | .name | .number | .errorToken => true
  | _ => false

/-- Whether two tokens meet on one line. -/
def meets (left right : RawToken) : Bool :=
  left.stop == right.start && left.start.line == right.start.line

/-- Whether two tokens may be pieces of one identifier, the second next to the first. -/
def continues (left right : RawToken) : Bool :=
  left.isPiece && right.isPiece && left.meets right

end RawToken

/-- The number of tokens that, after the token `last` and the text `sofar` up to its end, go on
with the identifier. -/
def stretchFrom (sofar : Text) (last : RawToken) : List RawToken → Nat
  | [] => 0
  | t :: rest =>
      if last.meets t && Text.isIdentifier (sofar ++ t.text) then
        stretchFrom (sofar ++ t.text) t rest + 1
      else 0

/-- The number of tokens in the longest stretch at the start of a list that meet and spell an
identifier at each of its ends. -/
def stretchLength : List RawToken → Nat
  | [] => 0
  | t :: rest => if Text.isIdentifier t.text then stretchFrom t.text t rest + 1 else 0

/-- The one name that a token and the tokens after it spell. -/
def merged (t : RawToken) (rest : List RawToken) : RawToken where
  kind := .name
  text := t.text ++ (rest.map RawToken.text).flatten
  start := t.start
  stop := ((t :: rest).getLast (by simp)).stop
  line := t.line

/-- Join the stretches after the first `skip` tokens, which are part of a name already. -/
def joinFrom : (skip : Nat) → List RawToken → List RawToken
  | _, [] => []
  | skip + 1, _ :: rest => joinFrom skip rest
  | 0, t :: rest =>
      let others := rest.take (stretchLength (t :: rest) - 1)
      if stretchLength (t :: rest) ≠ 0 ∧ (t :: others).any (·.kind == .errorToken) then
        merged t others :: joinFrom others.length rest
      else t :: joinFrom 0 rest

/-- Join each longest stretch that spells an identifier and holds an error token. -/
def join (tokens : List RawToken) : List RawToken := joinFrom 0 tokens

/-- The first token, counted from `index`, that starts before `previousStop` or before the token
before it stops. -/
def disorder? (index : Nat) (previousStop : Position) : List RawToken → Option TokenizeError
  | [] => none
  | t :: rest =>
      if t.start.lt previousStop then some (.outOfOrder index t.start previousStop)
      else disorder? (index + 1) t.stop rest

/-- Join the pieces of split identifiers. The tokens have to be in order. -/
def normalize (tokens : List RawToken) : Except TokenizeError (List RawToken) :=
  match tokens with
  | [] => .ok []
  | t :: rest =>
      match disorder? 1 t.stop rest with
      | some error => .error error
      | none => .ok ((tokens.splitBy RawToken.continues).map join).flatten

end SourceSpans
