import SourceSpans.Number.Digits

/-!
# Numbers in double precision

A double that is not negative is a significand of 53 bits with a power of two. `Double.round?`
finds the double next to a ratio by division of naturals, without an error of its own; the other
operations are exact but for one such rounding.

`Double.shortest` is the decimal that a double is written as: of the powers of ten with a multiple
that is read back as the double it takes the highest, and of two such multiples the nearer.
-/

namespace SourceSpans

/-- The number `significand · 2 ^ exponent`. The significand is below `2 ^ 53` and the exponent at
least -1074; the significand is at least `2 ^ 52` unless the exponent is -1074. -/
structure Double where
  significand : Nat
  exponent : Int
  deriving DecidableEq, Repr

namespace Double

/-- Zero, with the least exponent. -/
def zero : Double := ⟨0, -1074⟩

/-! ### Rounding -/

/-- The natural number next to `n / d`. A half goes to the even neighbour. -/
def nearest (n d : Nat) : Nat :=
  if 2 * (n % d) < d ∨ (2 * (n % d) = d ∧ n / d % 2 = 0) then n / d else n / d + 1

/-- The rounded ratio is at most half a unit away. -/
theorem nearest_bounds (n : Nat) {d : Nat} (h : 0 < d) :
    2 * n ≤ 2 * (d * nearest n d) + d ∧ 2 * (d * nearest n d) ≤ 2 * n + d := by
  have hn := Nat.div_add_mod n d
  have hr := Nat.mod_lt n h
  unfold nearest
  split
  · omega
  · rw [Nat.mul_add]
    omega

/-- What the ratio `n / d` becomes when it is multiplied by a power of two. -/
def scaled (n d : Nat) (k : Int) : Nat × Nat :=
  (n * Nat.pow 2 k.toNat, d * Nat.pow 2 (-k).toNat)

/-- The double next to `n / d · 2 ^ k`, unless it is too large. The first exponent leaves 53 or 54
bits before the point, and the second 53. -/
def round? (n d : Nat) (k : Int) : Option Double :=
  if n = 0 then some zero
  else
    let wide := (n.log2 : Int) - d.log2 + k - 53
    let e := if wide < -1074 then -1074 else wide
    let (m, c) := scaled n d (k - e)
    let e := if m / c < 0x20000000000000 then e else e + 1
    let (m, c) := scaled n d (k - e)
    let s := nearest m c
    let (s, e) := if s = 0x20000000000000 then (0x10000000000000, e + 1) else (s, e)
    if 971 < e then none else some ⟨s, e⟩

/-- The double next to `m · 10 ^ e`, unless it is too large. A number far outside the range of
doubles is settled by its count of bits, as `10 ^ e` is beyond `2 ^ (3 · e)`. -/
def ofDecimal? (m : Nat) (e : Int) : Option Double :=
  let size := (m.log2 : Int) + 3 * e
  if m = 0 ∨ (e < 0 ∧ size < -1076) then some zero
  else if 0 ≤ e ∧ 1024 ≤ size then none
  else round? (m * Nat.pow 10 e.toNat) (Nat.pow 10 (-e).toNat) 0

/-- The product of two doubles, unless it is too large. -/
def mul? (x y : Double) : Option Double :=
  round? (x.significand * y.significand) 1 (x.exponent + y.exponent)

/-- The quotient of two doubles, the second of which is not zero, unless it is too large. -/
def div? (x y : Double) : Option Double :=
  round? x.significand y.significand (x.exponent - y.exponent)

/-! ### Writing -/

/-- The multiple of `10 ^ e` next to the double, if it is read back as the double. From the middle
between two multiples that are both read back it goes up. -/
def onGrid? (x : Double) (e : Int) : Option Nat :=
  let (n, d) := scaled (x.significand * Nat.pow 10 (-e).toNat) (Nat.pow 10 e.toNat) x.exponent
  let below := n / d
  let isBelow := ofDecimal? below e == some x
  let isAbove := ofDecimal? (below + 1) e == some x
  if isBelow && (!isAbove || 2 * (n % d) < d) then some below
  else if isAbove then some (below + 1)
  else none

/-- The digits and the exponent of the decimal on the first of so many grids, from `10 ^ e`
downwards, that has a multiple which is read back; the exact value if there is none. -/
def shortestBelow (x : Double) : (count : Nat) → (e : Int) → Nat × Int
  | 0, _ =>
      (x.significand * Nat.pow 2 x.exponent.toNat * Nat.pow 5 (-x.exponent).toNat,
        if x.exponent < 0 then x.exponent else 0)
  | count + 1, e =>
      match x.onGrid? e with
      | some m => (m, e)
      | none => shortestBelow x count (e - 1)

/-- The digits and the exponent of the shortest decimal that is read back as the double. The search
starts above the double, as `10 ^ 0.30103` is above two, and ends beyond seventeen digits, which
always suffice. -/
def shortest (x : Double) : Nat × Int :=
  if x.significand = 0 then (0, 0)
  else
    let bits := (x.significand.log2 : Int) + x.exponent + 1
    x.shortestBelow 21 (bits * 30103 / 100000 + 1)

/-- The double in positional notation, with one digit at least on each side of the point. -/
def positional (x : Double) : String :=
  let (m, e) := x.shortest
  if 0 ≤ e then toString (m * Nat.pow 10 e.toNat) ++ ".0"
  else
    let unit := Nat.pow 10 (-e).toNat
    toString (m / unit) ++ "." ++ String.ofList (padded (-e).toNat (m % unit))

end Double

end SourceSpans
