/-!
# Digits

Numbers are written as digits of a radix up to sixteen, the highest place first.
-/

namespace SourceSpans

/-- The value of a digit of any radix up to sixteen. -/
def digitValue (c : Char) : Nat :=
  if c.isDigit then c.toNat - 48
  else if 'a' ≤ c ∧ c ≤ 'f' then c.toNat - 87
  else c.toNat - 55

/-- Digits of a radix up to sixteen. -/
def isDigitOf (radix : Nat) (c : Char) : Bool :=
  (c.isDigit || ('a' ≤ c && c ≤ 'f') || ('A' ≤ c && c ≤ 'F')) && digitValue c < radix

/-- The number that digits write. -/
def ofDigits (radix : Nat) (digits : List Char) : Nat :=
  digits.foldl (fun n c => radix * n + digitValue c) 0

@[simp] theorem ofDigits_nil (radix : Nat) : ofDigits radix [] = 0 := rfl

/-- A further digit moves the ones before it up by one place. -/
theorem ofDigits_concat (radix : Nat) (digits : List Char) (c : Char) :
    ofDigits radix (digits ++ [c]) = radix * ofDigits radix digits + digitValue c := by
  simp [ofDigits]

/-- A number in decimal digits, filled up with zeros to a width. -/
def padded (width n : Nat) : List Char :=
  let digits := Nat.toDigits 10 n
  List.replicate (width - digits.length) '0' ++ digits

end SourceSpans
