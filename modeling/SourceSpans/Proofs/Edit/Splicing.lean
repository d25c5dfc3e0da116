import SourceSpans.Proofs.Edit.Acceptance

/-!
# Splicing a text with edits in order

Edits that are applied are in order in the text: each fits, and starts where the one before it stops or
after (`Edit.InOrderFrom`).

* **Cuts** (`exists_cut`): the next edit cuts the rest of the text into what stands before it, what it
  replaces, and what comes after, where the other edits lie. `splice_nil` and `splice_cons` say what
  splicing makes of these parts.
* **Parts** (`splice_append`): a text with edits in two parts is spliced part by part.
* **Sizes** (`size_splice`): the text grows by what the edits put in (`Edit.bytesIn`) and shrinks by what
  they take out (`Edit.bytesOut`).
-/

namespace SourceSpans

open Text (size)

namespace Edit

/-- Edits in order from an offset on: each fits the text, and starts where the one before it stops or
after. -/
def InOrderFrom (t : Text) : (offset : Nat) → List Edit → Prop
  | _, [] => True
  | offset, e :: rest => offset ≤ e.start ∧ e.Fits t ∧ InOrderFrom t e.stop rest

/-- The number of bytes that edits put in. -/
def bytesIn (edits : List Edit) : Nat := size (edits.flatMap newText)

/-- The number of bytes that edits take out. -/
def bytesOut : List Edit → Nat
  | [] => 0
  | e :: rest => (e.stop - e.start) + bytesOut rest

@[simp] theorem bytesIn_nil : bytesIn [] = 0 := rfl

@[simp] theorem bytesOut_nil : bytesOut [] = 0 := rfl

@[simp] theorem bytesIn_cons (e : Edit) (rest : List Edit) :
    bytesIn (e :: rest) = size e.newText + bytesIn rest := by
  simp [bytesIn]

@[simp] theorem bytesOut_cons (e : Edit) (rest : List Edit) :
    bytesOut (e :: rest) = (e.stop - e.start) + bytesOut rest := rfl

/-- How much edits put in and take out does not hang on their order. -/
theorem bytes_perm {edits edits' : List Edit} (h : edits.Perm edits') :
    bytesIn edits = bytesIn edits' ∧ bytesOut edits = bytesOut edits' := by
  induction h with
  | nil => exact ⟨rfl, rfl⟩
  | cons e _ ih => simp [ih]
  | swap e f rest =>
    simp only [bytesIn_cons, bytesOut_cons]
    omega
  | trans _ _ ih ih' => exact ⟨ih.1.trans ih'.1, ih.2.trans ih'.2⟩

end Edit

open Edit (InOrderFrom bytesIn bytesOut)

variable {t u v w gap result : Text} {e : Edit} {edits before rest : List Edit} {offset : Nat}

/-! ### Edits in order -/

namespace Edit.InOrderFrom

theorem le_start (h : InOrderFrom t offset edits) : ∀ e ∈ edits, offset ≤ e.start := by
  induction edits generalizing offset with
  | nil => simp
  | cons f edits ih =>
    obtain ⟨hle, hfits, hrest⟩ := h
    intro e he
    rcases List.mem_cons.1 he with rfl | he
    · exact hle
    · exact hle.trans (hfits.start_le_stop.trans (ih hrest e he))

theorem fits (h : InOrderFrom t offset edits) : ∀ e ∈ edits, e.Fits t := by
  induction edits generalizing offset with
  | nil => simp
  | cons f edits ih =>
    intro e he
    rcases List.mem_cons.1 he with rfl | he
    · exact h.2.1
    · exact ih h.2.2 e he

theorem pairwise (h : InOrderFrom t offset edits) :
    edits.Pairwise fun e f => e.stop ≤ f.start := by
  induction edits generalizing offset with
  | nil => exact List.Pairwise.nil
  | cons e edits ih => exact List.pairwise_cons.2 ⟨h.2.2.le_start, ih h.2.2⟩

/-- Later edits are in order from each offset that they do not start before. -/
theorem of_append_right {offset' : Nat} (h : InOrderFrom t offset (before ++ rest)) (hrest : ∀ e ∈ rest, offset' ≤ e.start) :
    InOrderFrom t offset' rest := by
  induction before generalizing offset with
  | nil =>
    cases rest with
    | nil => trivial
    | cons e rest => exact ⟨hrest e List.mem_cons_self, h.2⟩
  | cons e before ih => exact ih h.2.2

/-- Earlier edits are in order in each beginning of the text that they do not stop after. -/
theorem of_append_left (h : InOrderFrom (u ++ v) offset (before ++ rest))
    (hbefore : ∀ e ∈ before, e.stop ≤ size u) : InOrderFrom u offset before := by
  induction before generalizing offset with
  | nil => trivial
  | cons e before ih =>
    obtain ⟨hle, hfits, hrest⟩ := h
    have hstop := hbefore e List.mem_cons_self
    refine ⟨hle, ⟨hfits.start_le_stop, hstop, ?_, ?_⟩, ih hrest fun f hf => ?_⟩
    · exact Text.isBoundary_of_append (hfits.start_le_stop.trans hstop) hfits.isBoundary_start
    · exact Text.isBoundary_of_append hstop hfits.isBoundary_stop
    · exact hbefore f (List.mem_cons_of_mem e hf)

end Edit.InOrderFrom

theorem inOrderFrom_of_isChain (hfits : ∀ e ∈ edits, e.Fits t)
    (hchain : edits.IsChain fun e f => e.stop ≤ f.start)
    (hfirst : ∀ e ∈ edits.head?, offset ≤ e.start) : InOrderFrom t offset edits := by
  induction edits generalizing offset with
  | nil => trivial
  | cons e edits ih =>
    have hchain' := List.isChain_cons.1 hchain
    refine ⟨hfirst e rfl, hfits e List.mem_cons_self, ?_⟩
    exact ih (fun f hf => hfits f (List.mem_cons_of_mem e hf)) hchain'.2 hchain'.1

/-- What is applied is the batch in order. -/
theorem inOrderFrom_of_replace_eq_ok (h : replace t edits = .ok result) :
    InOrderFrom t 0 (edits.mergeSort Edit.precedes) ∧
      splice t 0 (edits.mergeSort Edit.precedes) = result := by
  obtain ⟨hright, hapart, hresult⟩ := replace_eq_ok_iff.1 h
  refine ⟨inOrderFrom_of_isChain ?_ (overlap?_eq_none_iff.1 hapart) fun e _ => Nat.zero_le _, hresult⟩
  intro e he
  exact (Edit.fault?_eq_none_iff.1 (hright e (List.mem_mergeSort.1 he))).1

/-! ### Cuts -/

/-- The next edit cuts the rest of the text in three. -/
theorem exists_cut (h : InOrderFrom (u ++ v) (size u) (e :: rest)) :
    ∃ gap old after, v = gap ++ (old ++ after) ∧ e.start = size (u ++ gap) ∧
      e.stop = size (u ++ gap ++ old) := by
  obtain ⟨hle, hfits, -⟩ := h
  obtain ⟨gap, w, rfl, hstart⟩ := Text.exists_append_of_isBoundary hle hfits.isBoundary_start
  have hle' : size (u ++ gap) ≤ e.stop := hstart.trans_le hfits.start_le_stop
  have hstop := hfits.isBoundary_stop
  rw [← List.append_assoc] at hstop
  obtain ⟨old, after, rfl, hsize⟩ := Text.exists_append_of_isBoundary hle' hstop
  exact ⟨gap, old, after, rfl, hstart.symm, hsize.symm⟩

theorem splice_nil (u v : Text) : splice (u ++ v) (size u) [] = v := by
  have hslice := Text.slice?_append_append u v []
  rw [List.append_nil] at hslice
  rw [splice, hslice]
  rfl

/-- Applying an edit copies what stands before it and puts its text in place of what it replaces. -/
theorem splice_cons (hstart : e.start = size (u ++ gap)) (rest : List Edit) :
    splice (u ++ (gap ++ v)) (size u) (e :: rest) =
      gap ++ e.newText ++ splice (u ++ (gap ++ v)) e.stop rest := by
  have hslice := Text.slice?_append_append u gap v
  rw [List.append_assoc, ← hstart] at hslice
  rw [splice, hslice]
  rfl

/-! ### Parts -/

/-- Edits make a text longer by what they put in and shorter by what they take out. -/
theorem size_splice (h : InOrderFrom (u ++ v) (size u) edits) :
    size (splice (u ++ v) (size u) edits) + bytesOut edits = size v + bytesIn edits := by
  induction edits generalizing u v with
  | nil => rw [splice_nil, Edit.bytesOut_nil, Edit.bytesIn_nil]
  | cons e edits ih =>
    obtain ⟨gap, old, after, rfl, hstart, hstop⟩ := exists_cut h
    have hrest := h.2.2
    have htext : u ++ (gap ++ (old ++ after)) = u ++ gap ++ old ++ after := by
      simp only [List.append_assoc]
    rw [hstop, htext] at hrest
    have ih := ih hrest
    rw [splice_cons hstart, hstop, htext]
    simp only [Text.size_append, Edit.bytesIn_cons, Edit.bytesOut_cons, hstart, hstop] at ih ⊢
    omega

/-- **A batch is applied to a beginning of the text and to the rest of it**, if each of its edits lies in
one of the two. -/
theorem splice_append (hbefore : InOrderFrom (u ++ v) (size u) before)
    (hrest : InOrderFrom (u ++ v ++ w) (size (u ++ v)) rest) :
    splice (u ++ v ++ w) (size u) (before ++ rest) =
      splice (u ++ v) (size u) before ++ splice (u ++ v ++ w) (size (u ++ v)) rest := by
  induction before generalizing u v with
  | nil =>
    rw [List.nil_append, splice_nil]
    cases rest with
    | nil => rw [splice_nil, List.append_assoc, splice_nil]
    | cons e rest =>
      obtain ⟨gap, old, after, rfl, hstart, -⟩ := exists_cut hrest
      have hstart' : e.start = size (u ++ (v ++ gap)) := by rw [hstart, List.append_assoc]
      have htext : u ++ v ++ (gap ++ (old ++ after)) = u ++ ((v ++ gap) ++ (old ++ after)) := by
        simp only [List.append_assoc]
      rw [splice_cons hstart, htext, splice_cons hstart']
      simp only [List.append_assoc]
  | cons e before ih =>
    obtain ⟨gap, old, after, rfl, hstart, hstop⟩ := exists_cut hbefore
    have hbefore' := hbefore.2.2
    have htext : u ++ (gap ++ (old ++ after)) = u ++ gap ++ old ++ after := by
      simp only [List.append_assoc]
    have htext' : u ++ gap ++ old ++ after ++ w = u ++ (gap ++ (old ++ after ++ w)) := by
      simp only [List.append_assoc]
    rw [hstop, htext] at hbefore'
    rw [htext] at hrest
    rw [List.cons_append, splice_cons hstart, htext, htext', splice_cons hstart, ← htext', hstop,
      ih hbefore' hrest]
    simp only [List.append_assoc]

end SourceSpans
