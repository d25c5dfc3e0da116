/-!
# Sets of code points

A set of code points is written as the list of its maximal intervals, in ascending order, both
ends included. `Text.inIntervals` decides membership and stops at the first interval that lies
above the code point, so the common low code points are settled in a few steps.
-/

namespace SourceSpans.Text

/-- Whether a code point lies in one of the intervals, which are given in ascending order. -/
def inIntervals : List (Nat × Nat) → Nat → Bool
  | [], _ => false
  | (lo, hi) :: rest, c => if c < lo then false else if c ≤ hi then true else inIntervals rest c

@[simp] theorem inIntervals_nil (c : Nat) : inIntervals [] c = false := rfl

theorem inIntervals_cons_of_lt {lo hi c : Nat} {rest : List (Nat × Nat)} (h : c < lo) :
    inIntervals ((lo, hi) :: rest) c = false := by
  simp [inIntervals, h]

theorem inIntervals_cons_of_mem {lo hi c : Nat} {rest : List (Nat × Nat)} (h : lo ≤ c)
    (h' : c ≤ hi) : inIntervals ((lo, hi) :: rest) c = true := by
  simp [inIntervals, Nat.not_lt.2 h, h']

theorem inIntervals_cons_of_gt {lo hi c : Nat} {rest : List (Nat × Nat)} (h : lo ≤ c)
    (h' : hi < c) : inIntervals ((lo, hi) :: rest) c = inIntervals rest c := by
  simp [inIntervals, Nat.not_lt.2 h, Nat.not_le.2 h']

end SourceSpans.Text
