import SourceSpans.Token.Merge

/-!
# Sources

A source is a text with its tokens in order. `Source.ofText?` reads the tokens off the text,
`Source.ofTokens?` takes the tokens of another tokenizer; both join split identifiers first. The
byte offsets of a token are those of its two positions in the text.
-/

namespace SourceSpans

/-- A text with its tokens. -/
structure Source where
  text : Text
  tokens : Array Token
  deriving DecidableEq, Repr

namespace Source

/-- Number the tokens and look their offsets up. -/
def build (text : Text) (raw : List RawToken) : Source where
  text := text
  tokens :=
    let lines := LineMap.ofText text
    (raw.mapIdx fun index t =>
      { t with
        index
        startOffset := lines.offset t.start
        stopOffset := lines.offset t.stop }).toArray

/-- The source of tokens that were read elsewhere. -/
def ofTokens? (text : Text) (raw : List RawToken) : Except TokenizeError Source :=
  (normalize raw).map (build text)

/-- The source of a text. -/
def ofText? (text : Text) : Except TokenizeError Source :=
  (tokenize text).bind (ofTokens? text)

/-- The number of tokens. -/
def size (s : Source) : Nat := s.tokens.size

/-- The byte offset where a token starts; the end of the text if there is no such token. -/
def startOffset (s : Source) (index : Nat) : Nat :=
  match s.tokens[index]? with
  | some t => t.startOffset
  | none => Text.size s.text

/-- The byte offset where a token stops; the end of the text if there is no such token. -/
def stopOffset (s : Source) (index : Nat) : Nat :=
  match s.tokens[index]? with
  | some t => t.stopOffset
  | none => Text.size s.text

end Source

end SourceSpans
