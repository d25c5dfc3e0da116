import Mathlib.Data.List.Perm.Subperm
import SourceSpans.Edit.Replace
import SourceSpans.Proofs.Sequences
import SourceSpans.Proofs.Text.Boundaries

/-!
# Which batches of edits are applied

A batch of edits is applied if and only if each edit is right on its own and no two edits of the batch
conflict (`replace_accepts_exactly`).

* **One edit**: it has to fit the text (`Edit.Fits`) and to find what it expects there
  (`Edit.FindsExpected`). `Edit.fault?_eq_none_iff` and `Edit.fault?_eq_some_iff` say that the check of
  one edit asks for just this, and what it reports.
* **Two edits** conflict if a byte belongs to both of their ranges, or one inserts strictly inside the
  range of the other (`Edit.Conflicts`). For ranges of the text this says that neither range stops
  where the other starts or before (`Edit.conflicts_iff`).
* **A batch** is put in order first, and only neighbours are compared. That is enough: once each edit
  stops before the next one starts, it stops before all later ones start
  (`overlap?_mergeSort_eq_none_iff`).
-/

namespace SourceSpans

namespace Edit

variable {t : Text} {e f : Edit} {error : PatchError}

/-! ### One edit -/

/-- The offsets of an edit are a range of a text, from one boundary to another. -/
structure Fits (e : Edit) (t : Text) : Prop where
  start_le_stop : e.start ≤ e.stop
  stop_le_size : e.stop ≤ Text.size t
  isBoundary_start : Text.isBoundary t e.start = true
  isBoundary_stop : Text.isBoundary t e.stop = true

/-- An edit that expects something is to replace a part of the text that is as expected. -/
def FindsExpected (e : Edit) (t : Text) : Prop :=
  ∀ expected, e.expected? = some expected →
    ∃ found, Text.slice? t e.start e.stop = some found ∧ expected.admits found = true

theorem isInBounds_iff : e.isInBounds t = true ↔ e.Fits t := by
  simp only [isInBounds, Bool.and_eq_true, decide_eq_true_eq]
  constructor
  · rintro ⟨⟨⟨hle, hsize⟩, hstart⟩, hstop⟩
    exact ⟨hle, hsize, hstart, hstop⟩
  · rintro ⟨hle, hsize, hstart, hstop⟩
    exact ⟨⟨⟨hle, hsize⟩, hstart⟩, hstop⟩

/-- What an edit replaces is the part of the text in its range. -/
theorem Fits.slice?_eq_some (h : e.Fits t) :
    Text.slice? t e.start e.stop = some (e.replaced t) := by
  obtain ⟨part, hpart⟩ :=
    Text.exists_slice?_eq_some h.start_le_stop h.isBoundary_start h.isBoundary_stop
  rw [replaced, hpart]
  rfl

theorem Fits.findsExpected_iff (h : e.Fits t) :
    e.FindsExpected t ↔
      ∀ expected, e.expected? = some expected → expected.admits (e.replaced t) = true := by
  unfold FindsExpected
  rw [h.slice?_eq_some]
  simp

/-- An edit has no fault exactly if it fits and finds what it expects. -/
theorem fault?_eq_none_iff : e.fault? t = none ↔ e.Fits t ∧ e.FindsExpected t := by
  rw [fault?]
  by_cases hfits : e.Fits t
  · rw [if_pos (isInBounds_iff.2 hfits), hfits.findsExpected_iff]
    rcases e.expected? with _ | expected
    · simp [hfits]
    · simp [hfits]
  · rw [if_neg fun h => hfits (isInBounds_iff.1 h)]
    simp [hfits]

/-- The fault of an edit is that it does not fit, or else that it does not find what it expects. -/
theorem fault?_eq_some_iff : e.fault? t = some error ↔
    ¬ e.Fits t ∧ error = .invalidRange e.start e.stop (Text.size t) ∨
      e.Fits t ∧ ∃ expected found, e.expected? = some expected ∧
        Text.slice? t e.start e.stop = some found ∧ expected.admits found = false ∧
          error = .beforeTextMismatch e.start e.stop expected found := by
  rw [fault?]
  by_cases hfits : e.Fits t
  · rw [if_pos (isInBounds_iff.2 hfits), hfits.slice?_eq_some]
    constructor
    · intro h
      split at h
      · cases h
      · rename_i expected hexpected
        split_ifs at h with hadmits
        exact Or.inr ⟨hfits, expected, e.replaced t, hexpected, rfl, Bool.eq_false_iff.2 hadmits,
          (Option.some.inj h).symm⟩
    · rintro (⟨hnot, -⟩ | ⟨-, expected, found, hexpected, hfound, hadmits, rfl⟩)
      · exact absurd hfits hnot
      · obtain rfl := Option.some.inj hfound
        simp [hexpected, hadmits]
  · rw [if_neg fun h => hfits (isInBounds_iff.1 h)]
    simp only [hfits, not_false_eq_true, true_and, false_and, or_false, Option.some.injEq]
    exact eq_comm

/-! ### Two edits -/

/-- An edit inserts strictly inside the range of another one. -/
def InsertsInside (e f : Edit) : Prop := e.start = e.stop ∧ f.start < e.start ∧ e.start < f.stop

/-- A byte belongs to the ranges of both edits, or one of them inserts strictly inside the range of the
other. -/
def Conflicts (e f : Edit) : Prop :=
  (∃ byte, (e.start ≤ byte ∧ byte < e.stop) ∧ (f.start ≤ byte ∧ byte < f.stop)) ∨
    e.InsertsInside f ∨ f.InsertsInside e

theorem Conflicts.symm (h : e.Conflicts f) : f.Conflicts e := by
  rcases h with ⟨byte, he, hf⟩ | h | h
  · exact Or.inl ⟨byte, hf, he⟩
  · exact Or.inr (Or.inr h)
  · exact Or.inr (Or.inl h)

/-- Two ranges conflict unless one of them stops before the other starts, or just there. -/
theorem conflicts_iff (he : e.start ≤ e.stop) (hf : f.start ≤ f.stop) :
    e.Conflicts f ↔ ¬ (e.stop ≤ f.start ∨ f.stop ≤ e.start) := by
  unfold Conflicts InsertsInside
  constructor
  · rintro (⟨byte, he', hf'⟩ | h | h) hapart <;> omega
  · intro hapart
    by_cases hempty : e.start = e.stop
    · by_cases hstart : e.start = f.start
      · omega
      · exact Or.inr (Or.inl (by omega))
    by_cases hempty' : f.start = f.stop
    · exact Or.inr (Or.inr (by omega))
    · exact Or.inl ⟨max e.start f.start, by omega, by omega⟩

/-! ### The order of edits -/

theorem precedes_iff : e.precedes f = true ↔
    e.start < f.start ∨ e.start = f.start ∧ e.stop ≤ f.stop := by
  simp [precedes]

theorem precedes_trans (e f g : Edit) (hef : e.precedes f = true) (hfg : f.precedes g = true) :
    e.precedes g = true := by
  rw [precedes_iff] at *
  omega

theorem precedes_total (e f : Edit) : (e.precedes f || f.precedes e) = true := by
  rw [Bool.or_eq_true, precedes_iff, precedes_iff]
  omega

/-- Of two edits in order that do not conflict, the first stops before the second starts. -/
theorem stop_le_start_of_precedes (he : e.start ≤ e.stop) (hf : f.start ≤ f.stop)
    (horder : e.precedes f = true) : ¬ e.Conflicts f ↔ e.stop ≤ f.start := by
  rw [conflicts_iff he hf, not_not]
  rw [precedes_iff] at horder
  omega

end Edit

open Edit (Fits FindsExpected Conflicts)

/-! ### A batch of edits -/

variable {t : Text} {edits : List Edit} {error : PatchError}

/-- Edits each of which stops before the next one starts. -/
theorem overlap?_eq_none_iff :
    overlap? edits = none ↔ edits.IsChain fun e f => e.stop ≤ f.start := by
  induction edits with
  | nil => simp [overlap?]
  | cons e edits ih =>
    cases edits with
    | nil => simp [overlap?]
    | cons f edits =>
      rw [overlap?, List.isChain_cons_cons, ← ih]
      split_ifs with hlt
      · simp [hlt]
      · simp [Nat.not_lt.1 hlt]

/-- An overlap is reported of two neighbours. -/
theorem exists_of_overlap?_eq_some (h : overlap? edits = some error) :
    ∃ e f, [e, f].Sublist edits ∧ f.start < e.stop ∧
      error = .overlap e.start e.stop f.start f.stop := by
  induction edits with
  | nil => cases h
  | cons e edits ih =>
    cases edits with
    | nil => cases h
    | cons f edits =>
      rw [overlap?] at h
      split_ifs at h with hlt
      · refine ⟨e, f, ?_, hlt, (Option.some.inj h).symm⟩
        simp
      · obtain ⟨e', f', hsub, hrest⟩ := ih h
        exact ⟨e', f', hsub.cons e, hrest⟩

/-- **In order, neighbours tell of all pairs**: no edit in order starts before its neighbour stops
exactly if no two edits of the batch conflict. -/
theorem overlap?_mergeSort_eq_none_iff (hfits : ∀ e ∈ edits, e.start ≤ e.stop) :
    overlap? (edits.mergeSort Edit.precedes) = none ↔
      edits.Pairwise fun e f => ¬ e.Conflicts f := by
  have hperm := edits.mergeSort_perm Edit.precedes
  have hsorted := List.pairwise_mergeSort Edit.precedes_trans Edit.precedes_total edits
  have hsymm : ∀ {e f : Edit}, ¬ e.Conflicts f → ¬ f.Conflicts e := fun h h' => h h'.symm
  rw [overlap?_eq_none_iff, ← hperm.pairwise_iff hsymm]
  have hfits' : ∀ e ∈ edits.mergeSort Edit.precedes, e.start ≤ e.stop := fun e he =>
    hfits e (hperm.mem_iff.1 he)
  constructor
  · intro h
    refine ((pairwise_of_isChain Edit.start Edit.stop hfits' h).and hsorted).imp_of_mem fun he hf hef => ?_
    exact (Edit.stop_le_start_of_precedes (hfits' _ he) (hfits' _ hf) hef.2).2 hef.1
  · intro h
    refine List.Pairwise.isChain ((h.and hsorted).imp_of_mem fun he hf hef => ?_)
    exact (Edit.stop_le_start_of_precedes (hfits' _ he) (hfits' _ hf) hef.2).1 hef.1

/-- An overlap is reported of two edits of the batch that conflict. -/
theorem exists_of_overlap?_mergeSort_eq_some (hfits : ∀ e ∈ edits, e.start ≤ e.stop)
    (h : overlap? (edits.mergeSort Edit.precedes) = some error) :
    ∃ e f, [e, f].Subperm edits ∧ e.Conflicts f ∧
      error = .overlap e.start e.stop f.start f.stop := by
  obtain ⟨e, f, hsub, hlt, rfl⟩ := exists_of_overlap?_eq_some h
  have hperm := edits.mergeSort_perm Edit.precedes
  have hsorted := List.pairwise_mergeSort Edit.precedes_trans Edit.precedes_total edits
  have horder : e.precedes f = true := List.pairwise_iff_forall_sublist.1 hsorted hsub
  have he : e.start ≤ e.stop := hfits e (hperm.mem_iff.1 (hsub.subset (by simp)))
  have hf : f.start ≤ f.stop := hfits f (hperm.mem_iff.1 (hsub.subset (by simp)))
  refine ⟨e, f, hsub.subperm.trans hperm.subperm, ?_, rfl⟩
  by_contra hno
  have := (Edit.stop_le_start_of_precedes he hf horder).1 hno
  omega

theorem replace_of_fault {before after : List Edit} {e : Edit}
    (hedits : edits = before ++ e :: after) (hbefore : ∀ d ∈ before, d.fault? t = none)
    (he : e.fault? t = some error) : replace t edits = .error error := by
  have hfind : edits.findSome? (Edit.fault? t) = some error :=
    List.findSome?_eq_some_iff.2 ⟨before, e, after, hedits, he, hbefore⟩
  rw [replace, hfind]

/-- A batch of edits that are right on their own is applied unless two of them overlap. -/
theorem replace_of_no_fault (h : ∀ e ∈ edits, e.fault? t = none) :
    replace t edits =
      match overlap? (edits.mergeSort Edit.precedes) with
      | some error => .error error
      | none => .ok (splice t 0 (edits.mergeSort Edit.precedes)) := by
  have hnone : edits.findSome? (Edit.fault? t) = none := List.findSome?_eq_none_iff.2 h
  cases hoverlap : overlap? (edits.mergeSort Edit.precedes) with
  | none => simp only [replace, hnone, hoverlap]
  | some error => simp only [replace, hnone, hoverlap]

/-- Either some edit is wrong on its own, and the first such edit is reported, or all edits are right on
their own. -/
theorem exists_first_fault (t : Text) (edits : List Edit) :
    (∃ before e after error, edits = before ++ e :: after ∧ (∀ d ∈ before, d.fault? t = none) ∧
      e.fault? t = some error ∧ replace t edits = .error error) ∨
    ∀ e ∈ edits, e.fault? t = none := by
  rcases hfind : edits.findSome? (Edit.fault? t) with _ | error
  · exact Or.inr (List.findSome?_eq_none_iff.1 hfind)
  · obtain ⟨before, e, after, hedits, he, hbefore⟩ := List.findSome?_eq_some_iff.1 hfind
    exact Or.inl ⟨before, e, after, error, hedits, hbefore, he,
      replace_of_fault hedits hbefore he⟩

/-- What an applied batch gives: each edit is right on its own, none of them overlap once they are in
order, and the text is spliced with them in this order. -/
theorem replace_eq_ok_iff {result : Text} : replace t edits = .ok result ↔
    (∀ e ∈ edits, e.fault? t = none) ∧ overlap? (edits.mergeSort Edit.precedes) = none ∧
      splice t 0 (edits.mergeSort Edit.precedes) = result := by
  rcases exists_first_fault t edits with ⟨before, e, after, fault, hedits, -, he, hreplace⟩ | hall
  · rw [hreplace]
    refine iff_of_false nofun fun h => ?_
    rw [h.1 e (by simp [hedits])] at he
    cases he
  · rw [replace_of_no_fault hall, and_iff_right hall]
    rcases overlap? (edits.mergeSort Edit.precedes) with _ | error
    · simp
    · simp

/-- **Acceptance of a batch, exactly.** A batch of edits is applied if and only if every edit fits the
text and finds what it expects, and no two edits of the batch conflict. Edits that only touch, and an
insertion at an end of another range, do not conflict. A batch that is refused is refused for the first
edit that is wrong on its own, with what is wrong with it; only if there is none, it is for two edits of
the batch that conflict. -/
theorem replace_accepts_exactly (t : Text) (edits : List Edit) :
    ((∃ result, replace t edits = .ok result) ↔
      (∀ e ∈ edits, e.Fits t ∧ e.FindsExpected t) ∧ edits.Pairwise fun e f => ¬ e.Conflicts f) ∧
    (∀ e f : Edit, e.Fits t → f.Fits t →
      (e.Conflicts f ↔ ¬ (e.stop ≤ f.start ∨ f.stop ≤ e.start))) ∧
    ∀ error, replace t edits = .error error →
      (∃ before e after, edits = before ++ e :: after ∧
        (∀ d ∈ before, d.Fits t ∧ d.FindsExpected t) ∧
        (¬ e.Fits t ∧ error = .invalidRange e.start e.stop (Text.size t) ∨
          e.Fits t ∧ ∃ expected found, e.expected? = some expected ∧
            Text.slice? t e.start e.stop = some found ∧ expected.admits found = false ∧
              error = .beforeTextMismatch e.start e.stop expected found)) ∨
      (∀ e ∈ edits, e.Fits t ∧ e.FindsExpected t) ∧
        ∃ e f, [e, f].Subperm edits ∧ e.Conflicts f ∧
          error = .overlap e.start e.stop f.start f.stop := by
  refine ⟨?_, fun e f he hf => Edit.conflicts_iff he.start_le_stop hf.start_le_stop, ?_⟩
  all_goals
    rcases exists_first_fault t edits with
      ⟨before, e, after, fault, hedits, hbefore, he, hreplace⟩ | hall
  · -- an edit is wrong on its own, so neither side holds
    have hmem : e ∈ edits := by simp [hedits]
    refine iff_of_false ?_ fun h => ?_
    · simp [hreplace]
    · rw [Edit.fault?_eq_none_iff.2 (h.1 e hmem)] at he
      cases he
  · have hright : ∀ e ∈ edits, e.Fits t ∧ e.FindsExpected t := fun e he =>
      Edit.fault?_eq_none_iff.1 (hall e he)
    rw [and_iff_right hright,
      ← overlap?_mergeSort_eq_none_iff fun e he => (hright e he).1.start_le_stop,
      replace_of_no_fault hall]
    rcases overlap? (edits.mergeSort Edit.precedes) with _ | error <;> simp
  · intro error herror
    obtain rfl : fault = error := Except.error.inj (hreplace.symm.trans herror)
    exact Or.inl ⟨before, e, after, hedits, fun d hd => Edit.fault?_eq_none_iff.1 (hbefore d hd),
      Edit.fault?_eq_some_iff.1 he⟩
  · intro error herror
    have hright : ∀ e ∈ edits, e.Fits t ∧ e.FindsExpected t := fun e he =>
      Edit.fault?_eq_none_iff.1 (hall e he)
    refine Or.inr ⟨hright, exists_of_overlap?_mergeSort_eq_some
      (fun e he => (hright e he).1.start_le_stop) ?_⟩
    rw [replace_of_no_fault hall] at herror
    rcases hoverlap : overlap? (edits.mergeSort Edit.precedes) with _ | fault
    · rw [hoverlap] at herror
      cases herror
    · rw [hoverlap] at herror
      obtain rfl := Except.error.inj herror
      rfl

/-- Two insertions at the start of a replaced range touch it only. -/
example : replace ['a', 'b'] [⟨0, 2, ['x'], none⟩, ⟨0, 0, ['+'], none⟩, ⟨0, 0, ['-'], none⟩] =
    .ok ['+', '-', 'x'] := by
  cbv

end SourceSpans
