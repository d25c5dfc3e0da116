import SourceSpans.Text.IdentifierStart
import SourceSpans.Text.IdentifierContinue

/-!
# Identifiers

An identifier starts with a letter-like character or the low line and goes on with characters
that may stand inside an identifier, digits and combining marks among them. A non-empty beginning
of an identifier is an identifier (`isIdentifier_of_append`), which is what lets a longest one be
found by stopping at the first failure.
-/

namespace SourceSpans.Text

/-- Whether a character may start an identifier. -/
def isIdentifierStart (c : Char) : Bool := c == '_' || isXidStart c

/-- Whether a text is an identifier. -/
def isIdentifier : List Char → Bool
  | [] => false
  | c :: rest => isIdentifierStart c && rest.all isXidContinue

@[simp] theorem isIdentifier_nil : isIdentifier [] = false := rfl

theorem isIdentifier_cons (c : Char) (t : List Char) :
    isIdentifier (c :: t) = (isIdentifierStart c && t.all isXidContinue) := rfl

theorem isIdentifier_of_append {s t : List Char} (hs : s ≠ []) (h : isIdentifier (s ++ t) = true) :
    isIdentifier s = true := by
  obtain _ | ⟨c, s⟩ := s
  · exact absurd rfl hs
  · simp_all [isIdentifier_cons]

end SourceSpans.Text
