import SourceSpans.Proofs.Edit.Acceptance

/-!
# The order in which a batch is given

A batch of edits is put in order before it is applied, and edits with the same offsets stay in the order
in which they are given. So it does not matter how a batch is given, as long as this order is kept
(`replace_of_reorders`).

* **Ties** are edits with the same offsets (`Edit.sameRange`). Putting a batch in order does not change
  the order of those of its edits that are in order already (`filter_mergeSort`).
* **Ties decide**: two batches in order whose ties agree are the same batch (`eq_of_sorted_of_ties`).
* **Faults** do not hang on an order, but which of them is reported does. It is the first one given.
-/

namespace SourceSpans

namespace Edit

variable {e f : Edit}

/-! ### Ties -/

/-- Whether two edits have the same offsets. -/
def sameRange (e f : Edit) : Bool := e.start == f.start && e.stop == f.stop

theorem sameRange_iff : e.sameRange f = true ↔ e.start = f.start ∧ e.stop = f.stop := by
  simp [sameRange]

theorem sameRange_self (e : Edit) : e.sameRange e = true := by
  simp [sameRange]

/-- Edits that come before each other have the same offsets. -/
theorem sameRange_of_precedes (hef : e.precedes f = true) (hfe : f.precedes e = true) :
    e.sameRange f = true := by
  rw [precedes_iff] at hef hfe
  rw [sameRange_iff]
  omega

theorem precedes_of_sameRange {d : Edit} (he : d.sameRange e = true) (hf : d.sameRange f = true) :
    e.precedes f = true := by
  rw [sameRange_iff] at he hf
  rw [precedes_iff]
  omega

end Edit

/-- The same edits in two orders that differ on no two edits with the same offsets. -/
structure Reorders (edits edits' : List Edit) : Prop where
  perm : edits.Perm edits'
  ties : ∀ e ∈ edits, edits.filter e.sameRange = edits'.filter e.sameRange

/-! ### Putting a batch in order -/

variable {t : Text} {edits edits' : List Edit} {error : PatchError}

theorem sorted_mergeSort (edits : List Edit) :
    (edits.mergeSort Edit.precedes).Pairwise fun e f => e.precedes f = true :=
  List.pairwise_mergeSort Edit.precedes_trans Edit.precedes_total edits

/-- The first of several edits in order precedes all of them. -/
theorem precedes_of_mem_cons {e d : Edit}
    (hsorted : (e :: edits).Pairwise fun e f => e.precedes f = true) (hd : d ∈ e :: edits) :
    e.precedes d = true := by
  rcases List.mem_cons.1 hd with rfl | hd
  · exact Edit.precedes_of_sameRange (Edit.sameRange_self _) (Edit.sameRange_self _)
  · exact List.rel_of_pairwise_cons hsorted hd

/-- Batches that agree on all ties have the same edits. -/
theorem mem_iff_of_ties (hties : ∀ e : Edit, edits.filter e.sameRange = edits'.filter e.sameRange)
    (e : Edit) : e ∈ edits ↔ e ∈ edits' := by
  have hiff : e ∈ edits.filter e.sameRange ↔ e ∈ edits'.filter e.sameRange := by rw [hties e]
  simpa [Edit.sameRange_self] using hiff

/-- **Two batches in order are the same if they agree on all ties.** -/
theorem eq_of_sorted_of_ties (hsorted : edits.Pairwise fun e f => e.precedes f = true)
    (hsorted' : edits'.Pairwise fun e f => e.precedes f = true)
    (hties : ∀ e : Edit, edits.filter e.sameRange = edits'.filter e.sameRange) : edits = edits' := by
  have hmem := mem_iff_of_ties hties
  induction edits generalizing edits' with
  | nil =>
    symm
    rw [List.eq_nil_iff_forall_not_mem]
    intro e he
    exact List.not_mem_nil ((hmem e).2 he)
  | cons e edits ih =>
    cases edits' with
    | nil => exact absurd ((hmem e).1 List.mem_cons_self) List.not_mem_nil
    | cons f edits' =>
      -- the two first edits have the same offsets, so both are the first of one tie
      have hrange : e.sameRange f = true := by
        apply Edit.sameRange_of_precedes
        · exact precedes_of_mem_cons hsorted ((hmem f).2 List.mem_cons_self)
        · exact precedes_of_mem_cons hsorted' ((hmem e).1 List.mem_cons_self)
      have htie := hties e
      rw [List.filter_cons_of_pos (Edit.sameRange_self e), List.filter_cons_of_pos hrange] at htie
      obtain ⟨rfl, -⟩ := List.cons_eq_cons.1 htie
      have hrest : ∀ d : Edit, edits.filter d.sameRange = edits'.filter d.sameRange := by
        intro d
        have hd := hties d
        rw [List.filter_cons, List.filter_cons] at hd
        split_ifs at hd
        · exact (List.cons_eq_cons.1 hd).2
        · exact hd
      rw [ih hsorted.of_cons hsorted'.of_cons hrest (mem_iff_of_ties hrest)]

namespace Reorders

/-- The ties of a reordered batch agree, also those of an edit that is not in the batch. -/
theorem filter_eq (h : Reorders edits edits') (e : Edit) :
    edits.filter e.sameRange = edits'.filter e.sameRange := by
  by_cases hnil : edits.filter e.sameRange = []
  · have hperm := h.perm.filter e.sameRange
    rw [hnil] at hperm ⊢
    exact hperm.nil_eq
  · obtain ⟨d, hd⟩ := List.exists_mem_of_ne_nil _ hnil
    have hrange := Edit.sameRange_iff.1 (List.of_mem_filter hd)
    have heq : e.sameRange = d.sameRange := by
      funext f
      rw [Edit.sameRange, Edit.sameRange, hrange.1, hrange.2]
    rw [heq]
    exact h.ties d (List.mem_of_mem_filter hd)

/-- Reordered batches are put in the same order. -/
theorem mergeSort_eq (h : Reorders edits edits') :
    edits.mergeSort Edit.precedes = edits'.mergeSort Edit.precedes := by
  apply eq_of_sorted_of_ties (sorted_mergeSort edits) (sorted_mergeSort edits')
  intro e
  have hsort := filter_mergeSort Edit.precedes_trans Edit.precedes_total
    (p := e.sameRange) fun _ _ => Edit.precedes_of_sameRange
  rw [hsort edits, hsort edits']
  exact h.filter_eq e

end Reorders

/-! ### Applying a reordered batch -/

/-- **The order in which a batch is given does not matter**, as long as edits with the same offsets keep
theirs: both batches give the same text, or both are refused. If each edit is right on its own, they are
also refused for the same reason, and this is an overlap. -/
theorem replace_of_reorders (t : Text) {edits edits' : List Edit} (h : Reorders edits edits') :
    ((∃ result, replace t edits = .ok result ∧ replace t edits' = .ok result) ∨
      ∃ error error', replace t edits = .error error ∧ replace t edits' = .error error') ∧
    ((∀ e ∈ edits, e.Fits t ∧ e.FindsExpected t) →
      replace t edits = replace t edits' ∧
        ∀ error, replace t edits = .error error → ∃ a b c d, error = .overlap a b c d) := by
  by_cases hright : ∀ e ∈ edits, e.Fits t ∧ e.FindsExpected t
  · have hall : ∀ e ∈ edits, e.fault? t = none := fun e he =>
      Edit.fault?_eq_none_iff.2 (hright e he)
    have hall' : ∀ e ∈ edits', e.fault? t = none := fun e he => hall e (h.perm.mem_iff.2 he)
    have heq : replace t edits = replace t edits' := by
      rw [replace_of_no_fault hall, replace_of_no_fault hall', h.mergeSort_eq]
    refine ⟨?_, fun _ => ⟨heq, fun error herror => ?_⟩⟩
    · rw [← heq]
      rcases hreplace : replace t edits with error | result
      · exact Or.inr ⟨error, error, rfl, rfl⟩
      · exact Or.inl ⟨result, rfl, rfl⟩
    · rw [replace_of_no_fault hall] at herror
      rcases hoverlap : overlap? (edits.mergeSort Edit.precedes) with _ | fault
      · rw [hoverlap] at herror
        cases herror
      · rw [hoverlap] at herror
        obtain rfl := Except.error.inj herror
        obtain ⟨e, f, -, -, rfl⟩ := exists_of_overlap?_eq_some hoverlap
        exact ⟨e.start, e.stop, f.start, f.stop, rfl⟩
  · refine ⟨Or.inr ?_, fun hright' => absurd hright' hright⟩
    have hright' : ¬ ∀ e ∈ edits', e.Fits t ∧ e.FindsExpected t := fun hall =>
      hright fun e he => hall e (h.perm.mem_iff.1 he)
    -- a batch in which an edit is wrong on its own is refused, in whatever order it is given
    have hrefused : ∀ batch : List Edit, (¬ ∀ e ∈ batch, e.Fits t ∧ e.FindsExpected t) →
        ∃ error, replace t batch = .error error := by
      intro batch hbatch
      rcases exists_first_fault t batch with ⟨-, -, -, error, -, -, -, herror⟩ | hnone
      · exact ⟨error, herror⟩
      · exact absurd (fun e he => Edit.fault?_eq_none_iff.1 (hnone e he)) hbatch
    obtain ⟨error, herror⟩ := hrefused edits hright
    obtain ⟨error', herror'⟩ := hrefused edits' hright'
    exact ⟨error, error', herror, herror'⟩

/-- Two insertions and a replacement at one point, and a deletion. -/
def mixedBatch : List Edit :=
  [⟨1, 2, ['X'], none⟩, ⟨1, 1, ['+'], none⟩, ⟨1, 1, ['-'], none⟩, ⟨2, 4, [], some (.exact ['c', 'd'])⟩]

/-- The edits of `mixedBatch`, the insertions in the same order. -/
def mixedBatchReordered : List Edit :=
  [⟨2, 4, [], some (.exact ['c', 'd'])⟩, ⟨1, 1, ['+'], none⟩, ⟨1, 2, ['X'], none⟩, ⟨1, 1, ['-'], none⟩]

theorem replace_of_reorders_mixedBatch :
    Reorders mixedBatch mixedBatchReordered ∧
      replace ['a', 'b', 'c', 'd'] mixedBatch = .ok ['a', '+', '-', 'X'] ∧
      replace ['a', 'b', 'c', 'd'] mixedBatchReordered = .ok ['a', '+', '-', 'X'] := by
  have hreorders : Reorders mixedBatch mixedBatchReordered := ⟨by decide, by decide⟩
  have hsorted : mixedBatch.mergeSort Edit.precedes =
      [⟨1, 1, ['+'], none⟩, ⟨1, 1, ['-'], none⟩, ⟨1, 2, ['X'], none⟩,
        ⟨2, 4, [], some (.exact ['c', 'd'])⟩] := by
    simp [mixedBatch, List.mergeSort, Edit.precedes]
  have hok : replace ['a', 'b', 'c', 'd'] mixedBatch = .ok ['a', '+', '-', 'X'] := by
    rw [replace_eq_ok_iff, hsorted]
    decide
  have hright : ∀ e ∈ mixedBatch, e.Fits ['a', 'b', 'c', 'd'] ∧ e.FindsExpected ['a', 'b', 'c', 'd'] :=
    fun e he => Edit.fault?_eq_none_iff.1 ((replace_eq_ok_iff.1 hok).1 e he)
  have heq := ((replace_of_reorders ['a', 'b', 'c', 'd'] hreorders).2 hright).1
  exact ⟨hreorders, hok, heq ▸ hok⟩

end SourceSpans
