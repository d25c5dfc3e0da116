import SourceSpans.Token.Basic

/-!
# Lexemes

`lexemes` cuts a text into lexemes, the longest possible at each place. Nothing is dropped: what
separates tokens (blanks and continued line ends) is a lexeme too, so the lexemes of a text make
up the text (`flatten_lexemes`).

Each class of lexemes has a function that measures the longest one at the start of a text. At most
one of the classes fits, with these exceptions, in which the order of `Lexeme.first` picks the
longer one: letters before a quote open a string rather than being a name, and a point before a
digit starts a number rather than being an operator.

A string that opens and does not close is a *broken* lexeme, which ends after the opening quote;
so is a single character that starts no lexeme. Names are read in their ASCII form only: any other
character outside strings and comments is broken, and `normalize` joins the pieces of an
identifier again.
-/

namespace SourceSpans

/-- What a lexeme is. -/
inductive LexemeClass
  /-- Blanks and continued line ends, which only separate. -/
  | gap
  | comment
  | lineBreak
  | name
  | number
  | string
  | operator
  /-- Characters that are no token together. -/
  | broken
  deriving DecidableEq, Repr

/-- A piece of a text. -/
structure Lexeme where
  cls : LexemeClass
  text : Text
  deriving DecidableEq, Repr

namespace Lexeme

/-! ### Gaps, comments and line breaks -/

/-- Blanks inside a line. -/
def isGap (c : Char) : Bool := c == ' ' || c == '\t' || c == '\x0c'

/-- The length of a run of blanks, or of a backslash with the line end it continues. -/
def gapLength : Text → Nat
  | '\\' :: '\n' :: _ => 2
  | '\\' :: '\r' :: '\n' :: _ => 3
  | t => (t.takeWhile isGap).length

/-- The length of a line end. -/
def lineBreakLength : Text → Nat
  | '\n' :: _ => 1
  | '\r' :: '\n' :: _ => 2
  | _ => 0

/-- The length of a comment, which runs to the next carriage return or line feed. -/
def commentLength : Text → Nat
  | '#' :: rest => 1 + (rest.takeWhile fun c => c != '\r' && c != '\n').length
  | _ => 0

/-! ### Names and numbers -/

/-- ASCII letters and the low line. -/
def isNameStart (c : Char) : Bool := c.isAlpha || c == '_'

/-- ASCII letters, digits and the low line. -/
def isNamePart (c : Char) : Bool := c.isAlphanum || c == '_'

/-- The length of a name. -/
def nameLength : Text → Nat
  | [] => 0
  | c :: rest => if isNameStart c then 1 + (rest.takeWhile isNamePart).length else 0

/-- A decimal digit or a low line between digits. -/
def isDigitPart (c : Char) : Bool := c.isDigit || c == '_'

/-- The number of characters at the start of a text that may stand inside decimal digits. -/
def digitsLength (t : Text) : Nat := (t.takeWhile isDigitPart).length

/-- The length of a number with a radix mark: a zero, the mark in either case, and digits. -/
def radixLength (mark : Char) (isDigit : Char → Bool) : Text → Nat
  | '0' :: m :: rest =>
      if m.toLower = mark then
        match (rest.takeWhile fun c => isDigit c || c == '_').length with
        | 0 => 0
        | n + 1 => n + 3
      else 0
  | _ => 0

/-- Hexadecimal digits. -/
def isHexDigit (c : Char) : Bool :=
  c.isDigit || ('a' ≤ c && c ≤ 'f') || ('A' ≤ c && c ≤ 'F')

/-- Octal digits. -/
def isOctalDigit (c : Char) : Bool := '0' ≤ c && c ≤ '7'

/-- Binary digits. -/
def isBinaryDigit (c : Char) : Bool := c == '0' || c == '1'

/-- The length of a sign, if there is one. -/
def signLength : Text → Nat
  | c :: _ => if c = '+' || c = '-' then 1 else 0
  | [] => 0

/-- The length of an exponent: its mark, an optional sign, and at least one digit. -/
def exponentLength : Text → Nat
  | [] => 0
  | c :: rest =>
      if c = 'e' || c = 'E' then
        match digitsLength (rest.drop (signLength rest)) with
        | 0 => 0
        | n + 1 => 2 + signLength rest + n
      else 0

/-- The length of the mark of an imaginary number. -/
def imaginaryLength : Text → Nat
  | c :: _ => if c = 'j' || c = 'J' then 1 else 0
  | [] => 0

/-- The length of an exponent and an imaginary mark. -/
def scaleLength (t : Text) : Nat :=
  exponentLength t + imaginaryLength (t.drop (exponentLength t))

/-- The length of a point and the digits after it, of which there may be none. -/
def fractionLength : Text → Nat
  | '.' :: rest => 1 + digitsLength rest
  | _ => 0

/-- The length of a decimal number that starts with a digit. -/
def decimalLength : Text → Nat
  | [] => 0
  | c :: rest =>
      if c.isDigit then
        let whole := 1 + digitsLength rest
        let fraction := fractionLength ((c :: rest).drop whole)
        whole + fraction + scaleLength ((c :: rest).drop (whole + fraction))
      else 0

/-- The length of a decimal number that starts with its point. -/
def pointLength : Text → Nat
  | '.' :: c :: rest =>
      if c.isDigit then
        let fraction := 2 + digitsLength rest
        fraction + scaleLength (('.' :: c :: rest).drop fraction)
      else 0
  | _ => 0

/-- The length of a number: the longest of its forms. -/
def numberLength (t : Text) : Nat :=
  max (max (radixLength 'x' isHexDigit t) (radixLength 'o' isOctalDigit t))
    (max (radixLength 'b' isBinaryDigit t) (max (decimalLength t) (pointLength t)))

/-! ### Strings -/

/-- Letters that may stand before a quote. -/
def isStringMark (c : Char) : Bool := "rRbBuUfF".toList.contains c

/-- The quote at the start of a text, the longest there is. -/
def quote? : Text → Option Text
  | '\'' :: '\'' :: '\'' :: _ => some ['\'', '\'', '\'']
  | '"' :: '"' :: '"' :: _ => some ['"', '"', '"']
  | '\'' :: _ => some ['\'']
  | '"' :: _ => some ['"']
  | _ => none

/-- The opening of a string: how many marks there are, two at most, and the quote after them. -/
def opening? (t : Text) : Option (Nat × Text) :=
  let marks := (t.takeWhile isStringMark).length
  if marks ≤ 2 then (quote? (t.drop marks)).map fun quote => (marks, quote) else none

/-- How much of the text after an opening quote belongs to the string, the closing quote included.
A backslash protects the character after it, in every string. A string with a single quote may not
hold a bare line feed. -/
def closeLength? (quote : Text) : Text → Option Nat
  | [] => none
  | ['\\'] => none
  | '\\' :: _ :: rest => (closeLength? quote rest).map (· + 2)
  | c :: rest =>
      if c = '\n' && quote.length != 3 then none
      else if quote.isPrefixOf (c :: rest) then some quote.length
      else (closeLength? quote rest).map (· + 1)

/-! ### Operators -/

/-- The operators, longer ones before the shorter ones they start with. -/
def operators : List Text :=
  ["**=", "//=", ">>=", "<<=", "...",
   "**", "//", ">>", "<<", "->", ":=", "!=",
   "-=", "+=", "*=", "/=", "%=", "&=", "|=", "^=", "@=", "==", "<=", ">=",
   "-", "+", "*", "/", "%", "&", "|", "^", "@", "=", "<", ">",
   "~", ".", ",", ":", ";", "(", ")", "[", "]", "\x7b", "\x7d"].map String.toList

/-- The length of the longest operator at the start of a text. -/
def operatorLength (t : Text) : Nat :=
  match operators.find? fun op => op.isPrefixOf t with
  | some op => op.length
  | none => 0

/-! ### The first lexeme -/

/-- The lexeme of a class that takes so many characters. -/
def ofLength (cls : LexemeClass) (t : Text) (n : Nat) : Lexeme := ⟨cls, t.take n⟩

/-- The string that opens at the start of a text, or its broken opening. -/
def stringAt (t : Text) (marks : Nat) (quote : Text) : Lexeme :=
  let opening := marks + quote.length
  match closeLength? quote (t.drop opening) with
  | some n => ofLength .string t (opening + n)
  | none => ofLength .broken t opening

/-- The longest lexeme at the start of a text; a single broken character if there is none. -/
def first (t : Text) : Lexeme :=
  if gapLength t ≠ 0 then ofLength .gap t (gapLength t)
  else if lineBreakLength t ≠ 0 then ofLength .lineBreak t (lineBreakLength t)
  else if commentLength t ≠ 0 then ofLength .comment t (commentLength t)
  else match opening? t with
    | some (marks, quote) => stringAt t marks quote
    | none =>
        if numberLength t ≠ 0 then ofLength .number t (numberLength t)
        else if nameLength t ≠ 0 then ofLength .name t (nameLength t)
        else if operatorLength t ≠ 0 then ofLength .operator t (operatorLength t)
        else ofLength .broken t 1

/-! ### What the first lexeme takes -/

theorem length_pos_of_quote?_eq_some {t quote : Text} (h : quote? t = some quote) :
    0 < quote.length := by
  unfold quote? at h
  split at h <;> first | (obtain rfl := Option.some.inj h; simp) | simp at h

theorem length_pos_of_opening?_eq_some {t quote : Text} {marks : Nat}
    (h : opening? t = some (marks, quote)) : 0 < quote.length := by
  simp only [opening?] at h
  split at h
  · obtain ⟨q, hq, he⟩ := Option.map_eq_some_iff.1 h
    obtain ⟨-, rfl⟩ := Prod.mk.inj he
    exact length_pos_of_quote?_eq_some hq
  · simp at h

/-- The first lexeme is a beginning of the text, and not an empty one. -/
theorem exists_first_text_eq_take (t : Text) : ∃ n, 0 < n ∧ (first t).text = t.take n := by
  unfold first
  split
  · exact ⟨_, by omega, rfl⟩
  split
  · exact ⟨_, by omega, rfl⟩
  split
  · exact ⟨_, by omega, rfl⟩
  split
  · rename_i marks quote h
    have := length_pos_of_opening?_eq_some h
    simp only [stringAt]
    split
    · exact ⟨_, by omega, rfl⟩
    · exact ⟨_, by omega, rfl⟩
  split
  · exact ⟨_, by omega, rfl⟩
  split
  · exact ⟨_, by omega, rfl⟩
  split
  · exact ⟨_, by omega, rfl⟩
  · exact ⟨1, by omega, rfl⟩

end Lexeme

/-- The lexemes of a text after its first `skip` characters, which belong to a lexeme already. -/
def lexemesFrom : (skip : Nat) → Text → List Lexeme
  | _, [] => []
  | skip + 1, _ :: rest => lexemesFrom skip rest
  | 0, c :: rest =>
      let lexeme := Lexeme.first (c :: rest)
      lexeme :: lexemesFrom (lexeme.text.length - 1) rest

/-- The lexemes of a text. -/
def lexemes (t : Text) : List Lexeme := lexemesFrom 0 t

theorem lexemesFrom_eq_lexemes_drop (skip : Nat) (t : Text) :
    lexemesFrom skip t = lexemes (t.drop skip) := by
  induction t generalizing skip with
  | nil => cases skip <;> rfl
  | cons c t ih =>
    obtain _ | skip := skip
    · rfl
    · rw [lexemesFrom, ih, List.drop_succ_cons]

@[simp] theorem lexemes_nil : lexemes [] = [] := rfl

theorem lexemes_cons (c : Char) (t : Text) :
    lexemes (c :: t) =
      Lexeme.first (c :: t) ::
        lexemes ((c :: t).drop (Lexeme.first (c :: t)).text.length) := by
  obtain ⟨n, hn, h⟩ := Lexeme.exists_first_text_eq_take (c :: t)
  have hpos : 0 < (Lexeme.first (c :: t)).text.length := by
    rw [h, List.length_take, List.length_cons]; omega
  obtain ⟨m, hm⟩ := Nat.exists_eq_add_of_lt hpos
  rw [lexemes, lexemesFrom, lexemesFrom_eq_lexemes_drop, hm]
  simp

/-- Cutting a text into lexemes drops nothing. -/
theorem flatten_lexemes (t : Text) : ((lexemes t).map Lexeme.text).flatten = t := by
  induction h : t.length using Nat.strongRecOn generalizing t with
  | _ n ih =>
    obtain _ | ⟨c, t⟩ := t
    · rfl
    · obtain ⟨m, hm, hf⟩ := Lexeme.exists_first_text_eq_take (c :: t)
      have hlen : (Lexeme.first (c :: t)).text.length = min m (t.length + 1) := by
        rw [hf, List.length_take, List.length_cons]
      rw [lexemes_cons, List.map_cons, List.flatten_cons,
        ih ((c :: t).drop (Lexeme.first (c :: t)).text.length).length
          (by rw [← h, List.length_drop, hlen, List.length_cons]; omega) _ rfl]
      have htake : (Lexeme.first (c :: t)).text =
          (c :: t).take (Lexeme.first (c :: t)).text.length := by
        rw [hlen, hf, List.take_eq_take_iff, List.length_cons]; omega
      exact (congrArg (· ++ _) htake).trans (List.take_append_drop _ _)

end SourceSpans
