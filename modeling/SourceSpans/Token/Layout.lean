import SourceSpans.Token.Lexeme

/-!
# Logical lines and indentation

`tokenize` reads the tokens of a text off its lexemes. Besides the tokens that stand in the text
it makes the tokens of the layout: a line end is a `NEWLINE` if it ends a logical line and an `NL`
otherwise, and the first coding token of a logical line is preceded by an `INDENT` or by `DEDENT`s
if its column differs from the columns of the lines around it.

`Layout` is what has to be known while reading: the columns of the open blocks, the number of open
brackets, and whether the current logical line holds code yet.
-/

namespace SourceSpans

/-- Why the tokens of a source cannot be had. -/
inductive TokenizeError
  /-- A line goes back to a column that no open block has. -/
  | dedent (line : Nat)
  /-- A token starts before the token before it stops. -/
  | outOfOrder (index : Nat) (start previousStop : Position)
  deriving DecidableEq, Repr

namespace TokenizeError

/-- What went wrong. -/
def message : TokenizeError → String
  | dedent line =>
      "unindent does not match any outer indentation level on line " ++ toString line
  | outOfOrder index start previousStop =>
      "token " ++ toString index ++ " starts at " ++ start.describe
        ++ " before the previous token ends at " ++ previousStop.describe

end TokenizeError

/-- The state of reading a text. -/
structure Layout where
  /-- Where the next lexeme starts. -/
  place : Position
  /-- The columns of the open blocks, innermost first. -/
  indents : List Nat
  /-- The number of open brackets. -/
  depth : Nat
  /-- Whether the next coding token opens a logical line. -/
  atLineStart : Bool
  /-- Whether the current logical line holds code. -/
  hasCode : Bool
  deriving DecidableEq, Repr

namespace Layout

/-- Before the first character. -/
def initial : Layout := ⟨Position.start, [0], 0, true, false⟩

/-- The column of the innermost open block. -/
def column (s : Layout) : Nat := s.indents.headD 0

/-- A token of a text that stands at a position of the text with the given lines. -/
def tokenAt (lines : List Text) (kind : TokenKind) (start : Position) (text : Text) : RawToken where
  kind := kind
  text := text
  start := start
  stop := start.advance text
  line := Text.lineAt lines start.line

/-- The token of the white space before the first coding token of a line, from the start of the
physical line. -/
def indentToken (lines : List Text) (place : Position) : RawToken where
  kind := .indent
  text := (Text.lineAt lines place.line).take place.col
  start := ⟨place.line, 0⟩
  stop := place
  line := Text.lineAt lines place.line

/-- The layout tokens before a coding token that opens a logical line, and the blocks open after
them. -/
def indentTo (lines : List Text) (s : Layout) :
    Except TokenizeError (List RawToken × List Nat) :=
  if s.column < s.place.col then
    .ok ([indentToken lines s.place], s.place.col :: s.indents)
  else
    let closed := s.indents.takeWhile (s.place.col < ·)
    let kept := s.indents.dropWhile (s.place.col < ·)
    if s.place.col = kept.headD 0 then
      .ok (closed.map fun _ => tokenAt lines .dedent s.place [], kept)
    else .error (.dedent s.place.line)

/-- The number of open brackets after a coding token. -/
def depthAfter (depth : Nat) (kind : TokenKind) (text : Text) : Nat :=
  if kind ≠ .op then depth
  else if text = ['('] ∨ text = ['['] ∨ text = ['\x7b'] then depth + 1
  else if text = [')'] ∨ text = [']'] ∨ text = ['\x7d'] then depth - 1
  else depth

/-- Read a coding token. -/
def code (lines : List Text) (kind : TokenKind) (text : Text) (s : Layout) :
    Except TokenizeError (List RawToken × Layout) := do
  let (layout, indents) ← if s.atLineStart then indentTo lines s else .ok ([], s.indents)
  let token := tokenAt lines kind s.place text
  return (layout ++ [token],
    { place := token.stop, indents, depth := depthAfter s.depth kind text, atLineStart := false,
      hasCode := true })

/-- Read characters that are no token together, each as a token of its own. -/
def broken (lines : List Text) : Text → Layout → Except TokenizeError (List RawToken × Layout)
  | [], s => .ok ([], s)
  | c :: rest, s => do
      let (tokens, s) ← code lines .errorToken [c] s
      let (others, s) ← broken lines rest s
      return (tokens ++ others, s)

/-- Read a line end. Inside brackets it ends no logical line. -/
def lineBreak (lines : List Text) (text : Text) (s : Layout) : RawToken × Layout :=
  let kind := if s.depth = 0 ∧ s.hasCode = true then .newline else .nl
  let token := tokenAt lines kind s.place text
  (token,
    { s with
      place := token.stop
      atLineStart := if s.depth = 0 then true else s.atLineStart
      hasCode := if s.depth = 0 then false else s.hasCode })

/-- Read a lexeme. -/
def read (lines : List Text) (l : Lexeme) (s : Layout) :
    Except TokenizeError (List RawToken × Layout) :=
  match l.cls with
  | .gap => .ok ([], { s with place := s.place.advance l.text })
  | .comment =>
      let token := tokenAt lines .comment s.place l.text
      .ok ([token], { s with place := token.stop })
  | .lineBreak =>
      let (token, s) := lineBreak lines l.text s
      .ok ([token], s)
  | .name => code lines .name l.text s
  | .number => code lines .number l.text s
  | .string => code lines .string l.text s
  | .operator => code lines .op l.text s
  | .broken => broken lines l.text s

/-- The tokens at the end of a text: the end of an open logical line, of the open blocks, and of
the text. -/
def finish (lines : List Text) (s : Layout) : List RawToken :=
  (if s.hasCode then [tokenAt lines .newline s.place []] else [])
    ++ List.replicate (s.indents.length - 1) (tokenAt lines .dedent s.place [])
    ++ [tokenAt lines .endMarker s.place []]

/-- The tokens of the lexemes that are still to be read. -/
def readAll (lines : List Text) : List Lexeme → Layout → Except TokenizeError (List RawToken)
  | [], s => .ok (finish lines s)
  | l :: rest, s => do
      let (tokens, s) ← read lines l s
      let others ← readAll lines rest s
      return tokens ++ others

end Layout

/-- The tokens of a text, layout tokens included. -/
def tokenize (t : Text) : Except TokenizeError (List RawToken) :=
  Layout.readAll (Text.lines t) (lexemes t) Layout.initial

end SourceSpans
