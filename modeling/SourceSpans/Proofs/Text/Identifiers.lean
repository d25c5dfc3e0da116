import Mathlib.Data.List.Chain
import Mathlib.Data.List.TakeWhile
import Mathlib.Order.Basic
import Mathlib.Tactic.Common
import SourceSpans.Text.Identifier

/-!
# Characters of identifiers

A character that may start an identifier may also stand inside one (`isXidContinue_of_isXidStart`),
so the characters of an identifier are all of one class (`isXidContinue_of_isIdentifier`). The tables
of the two classes are compared in one pass over both, in which each interval of characters inside
identifiers strikes off the intervals of starting characters that lie in it.
-/

namespace SourceSpans.Text

variable {intervals inner : List (Nat × Nat)} {n : Nat}

theorem exists_of_inIntervals (h : inIntervals intervals n = true) :
    ∃ i ∈ intervals, i.1 ≤ n ∧ n ≤ i.2 := by
  induction intervals with
  | nil => cases h
  | cons i rest ih =>
    rw [inIntervals] at h
    split_ifs at h with hlo hhi
    · exact ⟨i, List.mem_cons_self, Nat.le_of_not_lt hlo, hhi⟩
    · obtain ⟨j, hj, hn⟩ := ih h
      exact ⟨j, List.mem_cons_of_mem _ hj, hn⟩

/-- In ascending order no interval is hidden by one that comes before it. -/
theorem inIntervals_of_mem (hasc : intervals.Pairwise fun i j => i.1 ≤ j.1) {i : Nat × Nat}
    (hi : i ∈ intervals) (hn : i.1 ≤ n ∧ n ≤ i.2) : inIntervals intervals n = true := by
  induction intervals with
  | nil => cases hi
  | cons j rest ih =>
    rw [List.pairwise_cons] at hasc
    rcases List.mem_cons.1 hi with rfl | hrest
    · exact inIntervals_cons_of_mem hn.1 hn.2
    · have hlo : j.1 ≤ n := Nat.le_trans (hasc.1 i hrest) hn.1
      rcases Nat.lt_or_ge j.2 n with hhi | hhi
      · rw [inIntervals_cons_of_gt hlo hhi]
        exact ih hasc.2 hrest
      · exact inIntervals_cons_of_mem hlo hhi

/-- Strike off the intervals at the start of a list that lie in another interval. -/
def strikeOff (intervals : List (Nat × Nat)) (outer : Nat × Nat) : List (Nat × Nat) :=
  intervals.dropWhile fun i => outer.1 ≤ i.1 && i.2 ≤ outer.2

/-- Intervals that are all struck off by others lie in these. -/
theorem exists_of_foldl_strikeOff (h : intervals.foldl strikeOff inner = []) {i : Nat × Nat}
    (hi : i ∈ inner) : ∃ o ∈ intervals, o.1 ≤ i.1 ∧ i.2 ≤ o.2 := by
  induction intervals generalizing inner with
  | nil =>
    rw [List.foldl_nil] at h
    rw [h] at hi
    cases hi
  | cons o rest ih =>
    rw [← List.takeWhile_append_dropWhile (p := fun i => o.1 ≤ i.1 && i.2 ≤ o.2) (l := inner),
      List.mem_append] at hi
    rcases hi with hi | hi
    · have hin := List.mem_takeWhile_imp hi
      rw [Bool.and_eq_true, decide_eq_true_eq, decide_eq_true_eq] at hin
      exact ⟨o, List.mem_cons_self, hin⟩
    · obtain ⟨o', ho', hin⟩ := ih h hi
      exact ⟨o', List.mem_cons_of_mem _ ho', hin⟩

theorem isXidContinue_of_isXidStart {c : Char} (h : isXidStart c = true) :
    isXidContinue c = true := by
  have hchain : identifierParts.IsChain fun i j => i.1 ≤ j.1 := by decide +kernel
  have hstrike : identifierParts.foldl strikeOff identifierStarts = [] := by decide +kernel
  obtain ⟨i, hi, hlo, hhi⟩ := exists_of_inIntervals h
  obtain ⟨o, ho, hlo', hhi'⟩ := exists_of_foldl_strikeOff hstrike hi
  have : IsTrans (Nat × Nat) fun i j => i.1 ≤ j.1 := ⟨fun _ _ _ => Nat.le_trans⟩
  exact inIntervals_of_mem (List.isChain_iff_pairwise.1 hchain) ho
    ⟨Nat.le_trans hlo' hlo, Nat.le_trans hhi hhi'⟩

theorem ne_nil_of_isIdentifier {w : List Char} (h : isIdentifier w = true) : w ≠ [] := by
  rintro rfl
  cases h

/-- Every character of an identifier may stand inside one. -/
theorem isXidContinue_of_isIdentifier {w : List Char} (h : isIdentifier w = true) :
    ∀ c ∈ w, isXidContinue c = true := by
  cases w with
  | nil => cases h
  | cons c rest =>
    rw [isIdentifier_cons, Bool.and_eq_true, isIdentifierStart, Bool.or_eq_true, beq_iff_eq] at h
    rw [List.forall_mem_cons]
    refine ⟨?_, List.all_eq_true.1 h.2⟩
    rcases h.1 with rfl | hstart
    · decide +kernel
    · exact isXidContinue_of_isXidStart hstart

end SourceSpans.Text
