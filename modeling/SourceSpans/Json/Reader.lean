import SourceSpans.Json.Basic
import SourceSpans.Number.Double

/-!
# Reading JSON

`Json.parse?` reads a document, which is one value with white space around it. An object is
identified by the number of characters from its start to the end of the document. Of members with
one name the first keeps the place and the last gives the value. A number too large for double
precision makes the document unreadable.

A number that is no integer of 64 bits is read in steps, each rounded on its own: the digits that
fit into 64 bits, and then the power of ten. So a number at the very edge of the range of doubles
may fall to the other side of it.

Of any two steps one takes a character, so a reader that may take twice as many steps as there are
characters never runs out of them.
-/

namespace SourceSpans

namespace JsonNumber

/-- Add digits to a number as long as it is below `2 ^ 64`, and count those that are left over. -/
def takeDigits (m : Nat) : List Char → Nat × Nat
  | [] => (m, 0)
  | c :: rest =>
      let longer := 10 * m + digitValue c
      if longer < 0x10000000000000000 then takeDigits longer rest else (m, rest.length + 1)

/-- A double times a power of ten, unless it is too large. Powers are doubles themselves, up to
`10 ^ 308`; a larger one is divided by in several steps, of which the second leaves nothing of a
number below `2 ^ 64`. -/
def scale? : (steps : Nat) → Double → Int → Option Double
  | 0, _, _ => some .zero
  | steps + 1, x, e =>
      if x.significand = 0 then some x
      else if 308 < e then none
      else if 0 ≤ e then do x.mul? (← Double.ofDecimal? 1 e)
      else if -308 ≤ e then do x.div? (← Double.ofDecimal? 1 (-e))
      else do scale? steps (← x.div? (← Double.ofDecimal? 1 308)) (e + 308)

/-- The number written with the given sign, digits before and after the point, and exponent. -/
def ofDecimal? (isNegative : Bool) (whole fraction : List Char) (e? : Option Int) :
    Option JsonNumber :=
  let (m, dropped) := takeDigits 0 whole
  let isPlain := fraction.isEmpty && e?.isNone && dropped == 0
  if isPlain = true ∧ isNegative = false then some (.integer m)
  else if isPlain = true ∧ m ≠ 0 ∧ m ≤ 0x8000000000000000 then some (.integer (-(m : Int)))
  else do
    let (m, cut) := takeDigits m fraction
    let e := e?.getD 0 + dropped - (fraction.length - cut : Nat)
    let x ← scale? 3 (← Double.round? m 1 0) e
    return .real (isNegative && x.significand != 0)

end JsonNumber

namespace Json

/-- The blanks between the parts of a document. -/
def isSpace (c : Char) : Bool := c == ' ' || c == '\t' || c == '\n' || c == '\r'

/-- What is left after the blanks. -/
def skipSpace (cs : List Char) : List Char := cs.dropWhile isSpace

/-- The value of a hexadecimal digit. -/
def hexDigit? (c : Char) : Option Nat :=
  if c.isDigit then some (c.toNat - 48)
  else if 'a' ≤ c ∧ c ≤ 'f' then some (c.toNat - 87)
  else if 'A' ≤ c ∧ c ≤ 'F' then some (c.toNat - 55)
  else none

/-- The number that four hexadecimal digits write. -/
def unit? : List Char → Option (Nat × List Char)
  | a :: b :: c :: d :: rest => do
      let a ← hexDigit? a
      let b ← hexDigit? b
      let c ← hexDigit? c
      let d ← hexDigit? d
      return (((a * 16 + b) * 16 + c) * 16 + d, rest)
  | _ => none

/-- The character that an escape after its backslash stands for. Characters beyond the first plane
are written as two units. -/
def escape? : List Char → Option (Char × List Char)
  | '"' :: rest => some ('"', rest)
  | '\\' :: rest => some ('\\', rest)
  | '/' :: rest => some ('/', rest)
  | 'b' :: rest => some ('\x08', rest)
  | 'f' :: rest => some ('\x0c', rest)
  | 'n' :: rest => some ('\n', rest)
  | 'r' :: rest => some ('\r', rest)
  | 't' :: rest => some ('\t', rest)
  | 'u' :: rest => do
      let (high, rest) ← unit? rest
      if high < 0xD800 ∨ 0xDFFF < high then return (Char.ofNat high, rest)
      else if 0xDC00 ≤ high then none
      else match rest with
        | '\\' :: 'u' :: rest => do
            let (low, rest) ← unit? rest
            if low < 0xDC00 ∨ 0xDFFF < low then none
            else return (Char.ofNat (0x10000 + (high - 0xD800) * 0x400 + (low - 0xDC00)), rest)
        | _ => none
  | _ => none

/-- The characters of a string up to its closing quote. -/
def stringTail? : (fuel : Nat) → List Char → Option (List Char × List Char)
  | 0, _ => none
  | _, [] => none
  | fuel + 1, c :: rest =>
      if c = '"' then some ([], rest)
      else if c = '\\' then do
        let (c, rest) ← escape? rest
        let (cs, rest) ← stringTail? fuel rest
        return (c :: cs, rest)
      else if c.toNat < 0x20 then none
      else do
        let (cs, rest) ← stringTail? fuel rest
        return (c :: cs, rest)

/-- The digits at the start, one at least. -/
def digits? (cs : List Char) : Option (List Char × List Char) :=
  match cs.takeWhile Char.isDigit with
  | [] => none
  | digits => some (digits, cs.dropWhile Char.isDigit)

/-- The digits of an integer, which has no leading zeros. -/
def whole? : List Char → Option (List Char × List Char)
  | '0' :: rest => if (rest.takeWhile Char.isDigit).isEmpty then some (['0'], rest) else none
  | cs => digits? cs

/-- The digits after the point, if there is one. -/
def fraction? : List Char → Option (List Char × List Char)
  | '.' :: rest => digits? rest
  | cs => some ([], cs)

/-- The exponent, if there is one. -/
def exponent? : List Char → Option (Option Int × List Char)
  | c :: rest =>
      if c = 'e' ∨ c = 'E' then
        let scale := fun (ds : List Char) => (ofDigits 10 ds : Int)
        match rest with
        | '+' :: rest => (digits? rest).map fun (ds, rest) => (some (scale ds), rest)
        | '-' :: rest => (digits? rest).map fun (ds, rest) => (some (-scale ds), rest)
        | rest => (digits? rest).map fun (ds, rest) => (some (scale ds), rest)
      else some (none, c :: rest)
  | [] => some (none, [])

/-- The number at the start. -/
def number? (cs : List Char) : Option (Json × List Char) := do
  let isNegative := cs.head? == some '-'
  let (whole, rest) ← whole? (if isNegative then cs.tail else cs)
  let (fraction, rest) ← fraction? rest
  let (e?, rest) ← exponent? rest
  let n ← JsonNumber.ofDecimal? isNegative whole fraction e?
  return (.number n, rest)

mutual

/-- The value at the start, which no blank precedes. -/
def value? : (fuel : Nat) → List Char → Option (Json × List Char)
  | 0, _ => none
  | _ + 1, [] => none
  | fuel + 1, c :: rest =>
      match c with
      | 'n' => if "ull".toList.isPrefixOf rest then some (.null, rest.drop 3) else none
      | 't' => if "rue".toList.isPrefixOf rest then some (.bool true, rest.drop 3) else none
      | 'f' => if "alse".toList.isPrefixOf rest then some (.bool false, rest.drop 4) else none
      | '"' => do
          let (cs, rest) ← stringTail? (rest.length + 1) rest
          return (.string (String.ofList cs), rest)
      | '[' =>
          match skipSpace rest with
          | ']' :: rest => some (.array [], rest)
          | rest => (itemsTail? fuel rest).map fun (items, rest) => (.array items, rest)
      | '\x7b' =>
          match skipSpace rest with
          | '\x7d' :: after => some (.object (rest.length + 1) [], after)
          | inside =>
              (membersTail? fuel [] inside).map fun (members, after) =>
                (.object (rest.length + 1) members, after)
      | _ => number? (c :: rest)

/-- The items of an array up to its end, one at least. -/
def itemsTail? : (fuel : Nat) → List Char → Option (List Json × List Char)
  | 0, _ => none
  | fuel + 1, cs => do
      let (item, rest) ← value? fuel cs
      match skipSpace rest with
      | ']' :: rest => return ([item], rest)
      | ',' :: rest =>
          let (items, rest) ← itemsTail? fuel (skipSpace rest)
          return (item :: items, rest)
      | _ => none

/-- The members of an object up to its end, one at least, after those read already. -/
def membersTail? : (fuel : Nat) → List (String × Json) → List Char →
    Option (List (String × Json) × List Char)
  | fuel + 1, members, '"' :: rest => do
      let (name, rest) ← stringTail? (rest.length + 1) rest
      match skipSpace rest with
      | ':' :: rest =>
          let (value, rest) ← value? fuel (skipSpace rest)
          let members := putMember (String.ofList name) value members
          match skipSpace rest with
          | '\x7d' :: rest => return (members, rest)
          | ',' :: rest => membersTail? fuel members (skipSpace rest)
          | _ => none
      | _ => none
  | _, _, _ => none

end

/-- The value of a document. -/
def parse? (document : String) : Option Json := do
  let cs := document.toList
  let (value, rest) ← value? (2 * cs.length + 2) (skipSpace cs)
  if (skipSpace rest).isEmpty then return value else none

end Json

end SourceSpans
