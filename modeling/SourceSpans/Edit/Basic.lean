import SourceSpans.Text.Basic
import SourceSpans.Text.Quoted
import SourceSpans.Edit.Digest

/-!
# Edits

An edit puts a new text in place of the bytes between two offsets; between equal offsets it
inserts. It may say what it expects to find there: a text, or for a long text its digest.
-/

namespace SourceSpans

/-- What an edit expects to replace. -/
inductive Expectation
  /-- This very text. -/
  | exact (text : Text)
  /-- A text with this digest. -/
  | digest (value : UInt64)
  deriving DecidableEq, Repr

namespace Expectation

/-- Texts longer than this many bytes are expected by their digest. -/
def exactLimit : Nat := 1024

/-- Expect a text. -/
def ofText (t : Text) : Expectation :=
  if exactLimit < Text.size t then digest (Digest.ofBytes (Text.utf8 t)) else exact t

/-- Whether a text is as expected. -/
def admits : Expectation → Text → Bool
  | exact expected, t => t == expected
  | digest value, t => Digest.ofBytes (Text.utf8 t) == value

/-- How an expectation is written in messages. -/
def describe : Expectation → String
  | exact t => "ExactMatch(" ++ Text.quoted t ++ ")"
  | digest value => "Hash(" ++ toString value.toNat ++ ")"

/-- A text is what is expected of itself. -/
theorem admits_ofText (t : Text) : (ofText t).admits t = true := by
  unfold ofText
  split <;> simp [admits]

end Expectation

/-- Put `newText` in place of the bytes from `start` up to `stop`. -/
structure Edit where
  start : Nat
  stop : Nat
  newText : Text
  expected? : Option Expectation
  deriving DecidableEq, Repr

/-- Why a batch of edits is refused. -/
inductive PatchError
  /-- Two edits of the batch overlap. -/
  | overlap (firstStart firstStop secondStart secondStop : Nat)
  /-- The offsets of an edit are not a range of the text. -/
  | invalidRange (start stop textSize : Nat)
  /-- An edit does not find what it expects. -/
  | beforeTextMismatch (start stop : Nat) (expected : Expectation) (found : Text)
  deriving DecidableEq, Repr

namespace PatchError

/-- A range of offsets in messages. -/
def interval (start stop : Nat) : String :=
  "[" ++ toString start ++ ", " ++ toString stop ++ ")"

/-- What went wrong. -/
def message : PatchError → String
  | overlap a b c d => "edits " ++ interval a b ++ " and " ++ interval c d ++ " overlap"
  | invalidRange a b n =>
      "invalid byte range " ++ interval a b ++ " in text of length " ++ toString n
  | beforeTextMismatch a b _ _ => "before-text verification failed at " ++ interval a b

end PatchError

namespace Edit

/-- Whether the offsets of an edit are a range of a text. -/
def isInBounds (t : Text) (e : Edit) : Bool :=
  e.start ≤ e.stop && e.stop ≤ Text.size t && Text.isBoundary t e.start
    && Text.isBoundary t e.stop

/-- The text that an edit replaces. -/
def replaced (t : Text) (e : Edit) : Text := (Text.slice? t e.start e.stop).getD []

/-- What is wrong with an edit on its own, if anything. -/
def fault? (t : Text) (e : Edit) : Option PatchError :=
  if e.isInBounds t then
    match e.expected? with
    | none => none
    | some expected =>
        if expected.admits (e.replaced t) then none
        else some (.beforeTextMismatch e.start e.stop expected (e.replaced t))
  else some (.invalidRange e.start e.stop (Text.size t))

/-- The order in which edits are applied: by start, then by stop. -/
def precedes (e f : Edit) : Bool :=
  e.start < f.start || (e.start == f.start && e.stop ≤ f.stop)

end Edit

end SourceSpans
