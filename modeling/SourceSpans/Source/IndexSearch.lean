/-!
# Searching indices

The least index of a range with a property (`findUp`), the greatest one (`findDown`), and the
border of a property that holds of a beginning of the indices (`border`). The first two come with
the statements that they find such an index and that none is nearer; the last halves the range.
-/

namespace SourceSpans

/-- The least of `count` indices from `i` on with a property. -/
def findUpTo (p : Nat → Bool) : (i count : Nat) → Option Nat
  | _, 0 => none
  | i, count + 1 => if p i then some i else findUpTo p (i + 1) count

/-- The least index from `i` on and below `n` with a property. -/
def findUp (p : Nat → Bool) (i n : Nat) : Option Nat := findUpTo p i (n - i)

/-- The greatest index below `i` with a property, `floor` at least. -/
def findDown (p : Nat → Bool) (floor : Nat) : (i : Nat) → Option Nat
  | 0 => none
  | i + 1 => if i < floor then none else if p i then some i else findDown p floor i

theorem findUpTo_eq_some_iff {p : Nat → Bool} {i count j : Nat} :
    findUpTo p i count = some j ↔
      i ≤ j ∧ j < i + count ∧ p j = true ∧ ∀ k, i ≤ k → k < j → p k = false := by
  induction count generalizing i with
  | zero =>
    simp only [findUpTo, reduceCtorEq, false_iff]
    omega
  | succ count ih =>
    rw [findUpTo]
    split
    · rename_i h
      rw [Option.some.injEq]
      constructor
      · rintro rfl
        exact ⟨by omega, by omega, h, by omega⟩
      · rintro ⟨h1, -, -, h4⟩
        by_cases hij : i = j
        · exact hij
        · rw [h4 i (by omega) (by omega)] at h
          simp at h
    · rename_i h
      rw [ih]
      constructor
      · rintro ⟨h1, h2, h3, h4⟩
        refine ⟨by omega, by omega, h3, fun k hk hkj => ?_⟩
        by_cases hik : k = i
        · rw [hik]; exact eq_false_of_ne_true h
        · exact h4 k (by omega) hkj
      · rintro ⟨h1, h2, h3, h4⟩
        have : i ≠ j := by rintro rfl; exact h h3
        exact ⟨by omega, by omega, h3, fun k hk hkj => h4 k (by omega) hkj⟩

theorem findUp_eq_some_iff {p : Nat → Bool} {i n j : Nat} :
    findUp p i n = some j ↔
      i ≤ j ∧ j < n ∧ p j = true ∧ ∀ k, i ≤ k → k < j → p k = false := by
  rw [findUp, findUpTo_eq_some_iff]
  constructor
  · rintro ⟨h1, h2, h3, h4⟩
    exact ⟨h1, by omega, h3, h4⟩
  · rintro ⟨h1, h2, h3, h4⟩
    exact ⟨h1, by omega, h3, h4⟩

theorem findUp_eq_none_iff {p : Nat → Bool} {i n : Nat} :
    findUp p i n = none ↔ ∀ k, i ≤ k → k < n → p k = false := by
  suffices h : ∀ count i, findUpTo p i count = none ↔ ∀ k, i ≤ k → k < i + count → p k = false by
    rw [findUp, h]
    constructor <;> intro h k hk hkn <;> exact h k hk (by omega)
  intro count
  induction count with
  | zero =>
    intro i
    simp only [findUpTo, true_iff]
    omega
  | succ count ih =>
    intro i
    rw [findUpTo]
    split
    · rename_i h
      simp only [reduceCtorEq, false_iff]
      intro hall
      rw [hall i (by omega) (by omega)] at h
      simp at h
    · rename_i h
      rw [ih]
      constructor
      · intro hall k hk hkn
        by_cases hik : k = i
        · rw [hik]; exact eq_false_of_ne_true h
        · exact hall k (by omega) (by omega)
      · intro hall k hk hkn
        exact hall k (by omega) (by omega)

theorem findDown_eq_some_iff {p : Nat → Bool} {floor i j : Nat} :
    findDown p floor i = some j ↔
      floor ≤ j ∧ j < i ∧ p j = true ∧ ∀ k, j < k → k < i → p k = false := by
  induction i with
  | zero => simp [findDown]
  | succ i ih =>
    rw [findDown]
    split
    · simp only [reduceCtorEq, false_iff]
      omega
    · split
      · rename_i hf h
        rw [Option.some.injEq]
        constructor
        · rintro rfl
          exact ⟨by omega, by omega, h, by omega⟩
        · rintro ⟨h1, h2, -, h4⟩
          by_cases hij : i = j
          · exact hij
          · rw [h4 i (by omega) (by omega)] at h
            simp at h
      · rename_i hf h
        rw [ih]
        constructor
        · rintro ⟨h1, h2, h3, h4⟩
          refine ⟨h1, by omega, h3, fun k hk hki => ?_⟩
          by_cases hik : k = i
          · rw [hik]; exact eq_false_of_ne_true h
          · exact h4 k hk (by omega)
        · rintro ⟨h1, h2, h3, h4⟩
          have : i ≠ j := by rintro rfl; exact h h3
          exact ⟨h1, by omega, h3, fun k hk hki => h4 k hk (by omega)⟩

theorem findDown_eq_none_iff {p : Nat → Bool} {floor i : Nat} :
    findDown p floor i = none ↔ ∀ k, floor ≤ k → k < i → p k = false := by
  induction i with
  | zero => simp [findDown]
  | succ i ih =>
    rw [findDown]
    split
    · simp only [true_iff]
      omega
    · split
      · rename_i hf h
        simp only [reduceCtorEq, false_iff]
        intro hall
        rw [hall i (by omega) (by omega)] at h
        simp at h
      · rename_i hf h
        rw [ih]
        constructor
        · intro hall k hk hki
          by_cases hik : k = i
          · rw [hik]; exact eq_false_of_ne_true h
          · exact hall k hk (by omega)
        · intro hall k hk hki
          exact hall k hk (by omega)

/-- Where a property stops to hold among `size` indices from `base` on, found by halving. -/
def borderFrom (p : Nat → Bool) (base size : Nat) : Nat :=
  if size ≤ 1 then
    if size = 1 ∧ p base = true then base + 1 else base
  else
    borderFrom p (if p (base + size / 2) then base + size / 2 else base) (size - size / 2)
termination_by size
decreasing_by omega

/-- The number of indices below `n` with a property, if it holds of a beginning of them. -/
def border (p : Nat → Bool) (n : Nat) : Nat := borderFrom p 0 n

end SourceSpans
