import SourceSpans.Text.GraphemeExtend
import SourceSpans.Text.Printable

/-!
# Quoted text

Messages show a text between double quotes on one line. A backslash, a double quote and the usual
line controls are written with a backslash; any other character that would not show on its own is
written by its code point: what is not printable, what joins the character before it, and letters
that only fill a place. A single quote stands as it is.
-/

namespace SourceSpans.Text

/-- A code point in lower-case hexadecimal digits, without leading zeros. -/
def hex (n : Nat) : String := String.ofList (Nat.toDigits 16 n)

/-- The Hangul fillers, which are letters but show nothing. -/
def isFiller (c : Char) : Bool :=
  c == '\u115f' || c == '\u1160' || c == '\u3164' || c == '\uffa0'

/-- The sound marks of half width, which extend a grapheme but take a place of their own. -/
def isHalfwidthMark (c : Char) : Bool := c == '\uff9e' || c == '\uff9f'

/-- Whether a character would not show on its own. -/
def isHidden (c : Char) : Bool :=
  isFiller c || !isPrintable c || (isGraphemeExtend c && !isHalfwidthMark c)

/-- How one character is written inside double quotes. -/
def escape (c : Char) : String :=
  if c = '\x00' then "\\0"
  else if c = '\t' then "\\t"
  else if c = '\n' then "\\n"
  else if c = '\r' then "\\r"
  else if c = '"' then "\\\""
  else if c = '\\' then "\\\\"
  else if isHidden c then "\\u\x7b" ++ hex c.toNat ++ "\x7d"
  else String.singleton c

/-- A text between double quotes. -/
def quoted (t : List Char) : String := "\"" ++ String.join (t.map escape) ++ "\""

end SourceSpans.Text
