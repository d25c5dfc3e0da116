import SourceSpans.Toml.Value

/-!
# TOML scalars

Numbers, dates and times are told apart by the whole of the word they are written as. Underscores
stand only between digits, a decimal integer has no leading zeros, and integers fit into 64 bits.
-/

namespace SourceSpans.Toml

/-- The digits of a number, underscores between them taken out; none if there is no digit or an
underscore is not between digits. -/
def digits? (isDigit : Char → Bool) : Text → Option (List Char)
  | [] => none
  | [c] => if isDigit c then some [c] else none
  | c :: '_' :: rest => if isDigit c then (digits? isDigit rest).map (c :: ·) else none
  | c :: d :: rest => if isDigit c then (digits? isDigit (d :: rest)).map (c :: ·) else none

/-- A sign and what follows it. -/
def signed : Text → Bool × Text
  | '+' :: rest => (false, rest)
  | '-' :: rest => (true, rest)
  | t => (false, t)

/-- An integer that fits into 64 bits. -/
def fitting? (n : Int) : Option Value :=
  if -0x8000000000000000 ≤ n ∧ n < 0x8000000000000000 then some (.integer n) else none

/-- The digits of a decimal integer, which has no leading zeros. -/
def wholeDigits? (t : Text) : Option (List Char) :=
  match digits? Char.isDigit t with
  | some ['0'] => some ['0']
  | some ('0' :: _) => none
  | other => other

/-- The integer that a word writes. -/
def integer? (t : Text) : Option Value :=
  match t with
  | '0' :: 'x' :: rest => (digits? (isDigitOf 16) rest).bind fun ds => fitting? (ofDigits 16 ds)
  | '0' :: 'o' :: rest => (digits? (isDigitOf 8) rest).bind fun ds => fitting? (ofDigits 8 ds)
  | '0' :: 'b' :: rest => (digits? (isDigitOf 2) rest).bind fun ds => fitting? (ofDigits 2 ds)
  | t =>
      let (isNegative, rest) := signed t
      (wholeDigits? rest).bind fun ds =>
        fitting? (if isNegative then -(ofDigits 10 ds : Int) else ofDigits 10 ds)

/-- The exponent after its mark. -/
def exponent? (t : Text) : Option Int :=
  let (isNegative, rest) := signed t
  (digits? Char.isDigit rest).map fun ds =>
    if isNegative then -(ofDigits 10 ds : Int) else ofDigits 10 ds

/-- The float that a word writes. There is none if it is too large for double precision; one that is
too small is zero. -/
def float? (t : Text) : Option Value := do
  let (isNegative, rest) := signed t
  if rest = ['i', 'n', 'f'] then return .float (.infinite isNegative)
  else if rest = ['n', 'a', 'n'] then return .float .notANumber
  else
    let isMark := fun c => c == 'e' || c == 'E'
    let mantissa := rest.takeWhile fun c => !isMark c
    let scale := rest.dropWhile fun c => !isMark c
    let whole ← wholeDigits? (mantissa.takeWhile (· != '.'))
    let fraction ← match mantissa.dropWhile (· != '.') with
      | [] => some []
      | _ :: places => digits? Char.isDigit places
    let e ← match scale with
      | [] => some 0
      | _ :: places => exponent? places
    if fraction.isEmpty && scale.isEmpty then none
    else
      let x ← Double.ofDecimal? (ofDigits 10 (whole ++ fraction)) (e - fraction.length)
      return .float (.finite isNegative x)

/-- The value that a word writes. -/
def word? (t : Text) : Option Value :=
  if t = "true".toList then some (.boolean true)
  else if t = "false".toList then some (.boolean false)
  else match datetime? t with
    | some d => some (.datetime d)
    | none =>
        match integer? t with
        | some v => some v
        | none => float? t

end SourceSpans.Toml
