import SourceSpans.Proofs.Edit.Ordering
import SourceSpans.Proofs.Edit.Splicing

/-!
# A batch applied one by one

`replace` copies a text once and puts the new texts in on the way. The result is that of applying the
edits one by one, each to the text left by those before it, from the last to the first
(`replace_applies_one_by_one`): what is applied later lies further to the left, where the offsets are
still those of the original text.

* **One by one** (`foldrM_replace`): the text up to an edit is still the original one when the edits
  after it have been applied.
* **Bytes** (`getElem?_utf8_splice`): a byte that no edit replaces stands in the result at its offset
  moved by what the edits up to it put in and take out (`Edit.shift`).
* **Edits** (`exists_splice_eq_append`): where an edit starts, there is first what is inserted there, and
  then the text of the edit.
-/

namespace SourceSpans

open Text (size utf8)

namespace Edit

/-- An edit without its check. -/
def unchecked (e : Edit) : Edit := { e with expected? := none }

/-- Where an offset goes when edits before it are applied. -/
def shift (before : List Edit) (offset : Nat) : Nat := offset + bytesIn before - bytesOut before

/-- Whether an edit inserts at an offset. -/
def insertsAt (offset : Nat) (e : Edit) : Bool := e.start == offset && e.stop == offset

/-- What a batch inserts at an offset, in the order in which it is given. -/
def insertedAt (edits : List Edit) (offset : Nat) : Text :=
  (edits.filter (insertsAt offset)).flatMap newText

/-- No edit of a batch replaces the byte at an offset. -/
def Keeps (edits : List Edit) (offset : Nat) : Prop :=
  ∀ e ∈ edits, ¬ (e.start ≤ offset ∧ offset < e.stop)

end Edit

open Edit (InOrderFrom bytesIn bytesOut shift insertedAt Keeps)

variable {t u v old result : Text} {e : Edit} {edits before rest : List Edit} {offset i j : Nat}

/-! ### One by one -/

/-- A single edit without a check puts its text in place of what it replaces. -/
theorem replace_unchecked (hstart : e.start = size u) (hstop : e.stop = size (u ++ old)) :
    replace (u ++ old ++ v) [e.unchecked] = .ok (u ++ e.newText ++ v) := by
  have hfits : e.unchecked.Fits (u ++ old ++ v) := by
    constructor
    · show e.start ≤ e.stop
      rw [hstart, hstop, Text.size_append]
      omega
    · show e.stop ≤ size (u ++ old ++ v)
      rw [hstop, Text.size_append (u ++ old)]
      omega
    · exact Text.isBoundary_iff.2 ⟨u, old ++ v, List.append_assoc _ _ _, hstart.symm⟩
    · exact Text.isBoundary_iff.2 ⟨u ++ old, v, rfl, hstop.symm⟩
  have hright : ∀ d ∈ [e.unchecked], d.fault? (u ++ old ++ v) = none := by
    intro d hd
    rw [List.mem_singleton.1 hd, Edit.fault?_eq_none_iff]
    exact ⟨hfits, nofun⟩
  rw [replace_eq_ok_iff, List.mergeSort_singleton]
  refine ⟨hright, rfl, ?_⟩
  have hsplice : splice (u ++ (old ++ v)) 0 [e.unchecked] =
      u ++ e.newText ++ splice (u ++ (old ++ v)) e.stop [] := by
    have hempty : e.unchecked.start = size ([] ++ u) := hstart
    exact splice_cons hempty []
  rw [List.append_assoc, hsplice, ← List.append_assoc, hstop, splice_nil]

/-- **The edits one by one, from the last to the first**, on a text in which they begin at an offset,
leave what stands before this offset and splice the rest. -/
theorem foldrM_replace (h : InOrderFrom (u ++ v) (size u) edits) :
    edits.foldrM (fun e current => replace current [e.unchecked]) (u ++ v) =
      .ok (u ++ splice (u ++ v) (size u) edits) := by
  induction edits generalizing u v with
  | nil =>
    rw [splice_nil]
    rfl
  | cons e edits ih =>
    obtain ⟨gap, old, after, rfl, hstart, hstop⟩ := exists_cut h
    have hrest := h.2.2
    rw [hstop] at hrest
    have htext : u ++ (gap ++ (old ++ after)) = u ++ gap ++ old ++ after := by
      simp only [List.append_assoc]
    rw [htext] at hrest
    rw [splice_cons hstart, List.foldrM_cons, htext, ih hrest, hstop]
    -- the text before the edit is still the original one
    show replace (u ++ gap ++ old ++ _) [e.unchecked] = _
    rw [replace_unchecked hstart hstop]
    simp only [List.append_assoc]

/-! ### How offsets move -/

namespace Edit

theorem shift_perm {edits edits' : List Edit} (h : edits.Perm edits') (offset : Nat) :
    shift edits offset = shift edits' offset := by
  rw [shift, shift, (bytes_perm h).1, (bytes_perm h).2]

theorem Keeps.of_cons {e : Edit} (h : Keeps (e :: rest) i) : Keeps rest i := fun f hf =>
  h f (List.mem_cons_of_mem e hf)

/-- Edits in order from an offset on do not start before it. -/
theorem filter_start_le_eq_nil (h : InOrderFrom t offset edits) (hlt : i < offset) :
    edits.filter (fun e => decide (e.start ≤ i)) = [] := by
  rw [List.filter_eq_nil_iff]
  intro e he
  have := h.le_start e he
  simp only [decide_eq_true_eq]
  omega

/-- Edits up to an offset that is kept take out bytes before it only. -/
theorem bytesOut_le (h : InOrderFrom t offset edits) (hle : offset ≤ i) (hkeeps : Keeps edits i) :
    bytesOut (edits.filter (fun e => decide (e.start ≤ i))) + offset ≤ i := by
  induction edits generalizing offset with
  | nil => simpa using hle
  | cons e edits ih =>
    obtain ⟨hstart, hfits, hrest⟩ := h
    have hlen := hfits.start_le_stop
    by_cases hi : e.start ≤ i
    · have hstop : e.stop ≤ i := by
        have := hkeeps e List.mem_cons_self
        omega
      have := ih hrest hstop hkeeps.of_cons
      rw [List.filter_cons_of_pos (by simpa using hi), bytesOut_cons]
      omega
    · rw [List.filter_cons_of_neg (by simpa using hi), filter_start_le_eq_nil hrest (by omega)]
      simpa using hle

/-- **Bytes that are kept stay in order.** -/
theorem shift_lt (h : InOrderFrom t offset edits) (hle : offset ≤ i) (hi : Keeps edits i) (hij : i < j)
    (hj : Keeps edits j) :
    shift (edits.filter fun e => decide (e.start ≤ i)) i <
      shift (edits.filter fun e => decide (e.start ≤ j)) j := by
  have hout := bytesOut_le h hle hi
  have hout' := bytesOut_le h (hle.trans hij.le) hj
  suffices hless : bytesIn (edits.filter fun e => decide (e.start ≤ i)) +
      bytesOut (edits.filter fun e => decide (e.start ≤ j)) + i <
      bytesIn (edits.filter fun e => decide (e.start ≤ j)) +
      bytesOut (edits.filter fun e => decide (e.start ≤ i)) + j by
    unfold shift
    omega
  clear hout hout'
  induction edits generalizing offset with
  | nil => simpa using hij
  | cons e edits ih =>
    by_cases hei : e.start ≤ i
    · have hstop : e.stop ≤ i := by
        have := hi e List.mem_cons_self
        omega
      have := ih h.2.2 hstop hi.of_cons hj.of_cons
      rw [List.filter_cons_of_pos (by simpa using hei),
        List.filter_cons_of_pos (by simpa using hei.trans hij.le)]
      simp only [bytesIn_cons, bytesOut_cons]
      omega
    · -- no edit lies up to `i`, and those up to `j` take out bytes between the two
      have h' : InOrderFrom t e.start (e :: edits) := ⟨le_rfl, h.2⟩
      rw [filter_start_le_eq_nil h' (by omega), bytesIn_nil, bytesOut_nil]
      by_cases hej : e.start ≤ j
      · have := bytesOut_le h' hej hj
        omega
      · rw [filter_start_le_eq_nil h' (by omega), bytesIn_nil, bytesOut_nil]
        omega

end Edit

/-- **A byte that no edit replaces goes where its offset is shifted.** -/
theorem getElem?_utf8_splice (h : InOrderFrom (u ++ v) (size u) edits) (hle : size u ≤ i)
    (hlt : i < size (u ++ v)) (hkeeps : Keeps edits i) {k : Nat}
    (hk : k + bytesOut (edits.filter fun e => decide (e.start ≤ i)) + size u =
      i + bytesIn (edits.filter fun e => decide (e.start ≤ i))) :
    (utf8 (splice (u ++ v) (size u) edits))[k]? = (utf8 (u ++ v))[i]? := by
  induction edits generalizing u v k with
  | nil =>
    have hk' : i - size u = k := by
      simp only [List.filter_nil, Edit.bytesIn_nil, Edit.bytesOut_nil] at hk
      omega
    rw [splice_nil, Text.utf8_append, List.getElem?_append_right (by simpa using hle),
      Text.length_utf8, hk']
  | cons e edits ih =>
    obtain ⟨gap, old, after, rfl, hstart, hstop⟩ := exists_cut h
    have hrest := h.2.2
    have hfits := h.2.1
    have hlen := hfits.start_le_stop
    have htext : u ++ (gap ++ (old ++ after)) = u ++ gap ++ old ++ after := by
      simp only [List.append_assoc]
    have hgap : e.start = size u + size gap := by rw [hstart, Text.size_append]
    rw [splice_cons hstart, List.append_assoc, Text.utf8_append gap, Text.utf8_append e.newText]
    by_cases hi : e.start ≤ i
    · -- the byte lies behind this edit, where the other ones are
      have hstop' : e.stop ≤ i := by
        have := hkeeps e List.mem_cons_self
        omega
      have hout := Edit.bytesOut_le hrest hstop' hkeeps.of_cons
      rw [List.filter_cons_of_pos (by simpa using hi), Edit.bytesIn_cons, Edit.bytesOut_cons] at hk
      have hge : (utf8 gap).length ≤ k := by
        rw [Text.length_utf8]
        omega
      have hge' : (utf8 e.newText).length ≤ k - (utf8 gap).length := by
        rw [Text.length_utf8, Text.length_utf8]
        omega
      rw [List.getElem?_append_right hge, List.getElem?_append_right hge', Text.length_utf8,
        Text.length_utf8]
      rw [hstop, htext] at hrest
      rw [htext] at hlt
      rw [hstop, htext]
      rw [hstop] at hstop' hk
      apply ih hrest hstop' hlt hkeeps.of_cons
      omega
    · -- the byte stands in the gap before this edit
      have hnil : (e :: edits).filter (fun e => decide (e.start ≤ i)) = [] := by
        have h' : InOrderFrom (u ++ (gap ++ (old ++ after))) e.start (e :: edits) := ⟨le_rfl, h.2⟩
        exact Edit.filter_start_le_eq_nil h' (by omega)
      rw [hnil, Edit.bytesIn_nil, Edit.bytesOut_nil] at hk
      have hk' : i - size u = k := by omega
      have hltgap : k < (utf8 gap).length := by
        rw [Text.length_utf8]
        omega
      rw [List.getElem?_append_left hltgap, Text.utf8_append u, Text.utf8_append gap,
        List.getElem?_append_right (by simpa using hle), Text.length_utf8, hk',
        List.getElem?_append_left hltgap]

/-! ### What stands at an offset -/

theorem insertsAt_iff : e.insertsAt offset = true ↔ e.start = offset ∧ e.stop = offset := by
  simp [Edit.insertsAt]

/-- Insertions at one offset are inserted in the order in which they are given. -/
theorem insertedAt_mergeSort (edits : List Edit) (offset : Nat) :
    insertedAt (edits.mergeSort Edit.precedes) offset = insertedAt edits offset := by
  have hties : ∀ e f : Edit, e.insertsAt offset = true → f.insertsAt offset = true →
      e.precedes f = true := by
    intro e f he hf
    rw [insertsAt_iff] at he hf
    rw [Edit.precedes_iff]
    omega
  rw [insertedAt, insertedAt, filter_mergeSort Edit.precedes_trans Edit.precedes_total hties]

/-- Insertions at an offset put their texts there. -/
theorem splice_insertions (h : ∀ e ∈ before, e.insertsAt (size u) = true) (rest : List Edit) :
    splice (u ++ v) (size u) (before ++ rest) =
      before.flatMap Edit.newText ++ splice (u ++ v) (size u) rest := by
  induction before with
  | nil => rfl
  | cons e before ih =>
    obtain ⟨hstart, hstop⟩ := insertsAt_iff.1 (h e List.mem_cons_self)
    have hcons : splice (u ++ ([] ++ v)) (size u) (e :: (before ++ rest)) =
        [] ++ e.newText ++ splice (u ++ ([] ++ v)) e.stop (before ++ rest) :=
      splice_cons (by rw [hstart, List.append_nil]) _
    rw [List.nil_append, List.nil_append] at hcons
    rw [List.cons_append, hcons, hstop, ih fun f hf => h f (List.mem_cons_of_mem e hf),
      List.flatMap_cons, List.append_assoc]

/-- Edits are split by a property that the earlier ones have if the later ones do. -/
theorem filter_append_filter_not {p : Edit → Bool}
    (h : edits.Pairwise fun e f => p f = true → p e = true) :
    edits.filter p ++ edits.filter (fun e => !p e) = edits := by
  induction edits with
  | nil => rfl
  | cons e edits ih =>
    obtain ⟨hfirst, hrest⟩ := List.pairwise_cons.1 h
    have hsplit := ih hrest
    cases hp : p e with
    | true =>
      rw [List.filter_cons_of_pos hp, List.filter_cons_of_neg (by simp [hp]), List.cons_append,
        hsplit]
    | false =>
      have hnone : edits.filter p = [] := by
        rw [List.filter_eq_nil_iff]
        intro f hf hpf
        have := hfirst f hf hpf
        simp [hp] at this
      rw [hnone, List.nil_append] at hsplit
      rw [List.filter_cons_of_neg (by simp [hp]), List.filter_cons_of_pos (by simp [hp]), hnone,
        List.nil_append, hsplit]

/-- The first edit from an offset on that does not insert there is the one that replaces something
there. -/
theorem newText_prefix_splice (h : InOrderFrom (u ++ v) (size u) rest)
    (hrest : ∀ f ∈ rest, f.insertsAt (size u) = false) (he : e ∈ rest) (hstart : e.start = size u) :
    e.newText <+: splice (u ++ v) (size u) rest := by
  cases rest with
  | nil => exact absurd he List.not_mem_nil
  | cons f rest =>
    have hfirst : f = e := by
      rcases List.mem_cons.1 he with heq | he
      · exact heq.symm
      · -- `f` would start and stop where `e` starts
        have hstop : f.stop ≤ e.start := List.rel_of_pairwise_cons h.pairwise he
        have hinsert : f.insertsAt (size u) = true := by
          rw [insertsAt_iff]
          have := h.1
          have := h.2.1.start_le_stop
          omega
        rw [hrest f List.mem_cons_self] at hinsert
        cases hinsert
    have hcons : splice (u ++ ([] ++ v)) (size u) (e :: rest) =
        [] ++ e.newText ++ splice (u ++ ([] ++ v)) e.stop rest :=
      splice_cons (by rw [hstart, List.append_nil]) _
    rw [List.nil_append, List.nil_append] at hcons
    rw [hfirst, hcons]
    exact List.prefix_append _ _

/-- Where an edit starts, there is first what is inserted there, and then the text of the edit, if it
replaces something. -/
theorem exists_splice_eq (h : InOrderFrom (u ++ v) (size u) edits) (he : e ∈ edits)
    (hstart : e.start = size u) :
    ∃ after, splice (u ++ v) (size u) edits = insertedAt edits (size u) ++ after ∧
      (e.start < e.stop → e.newText <+: after) := by
  have hsplit : edits.filter (Edit.insertsAt (size u)) ++
      edits.filter (fun f => !f.insertsAt (size u)) = edits := by
    apply filter_append_filter_not
    refine h.pairwise.imp_of_mem fun {f g} hf hg hfg hinserts => ?_
    rw [insertsAt_iff] at hinserts ⊢
    have := h.le_start f hf
    have := (h.fits f hf).start_le_stop
    omega
  refine ⟨splice (u ++ v) (size u) (edits.filter fun f => !f.insertsAt (size u)), ?_, fun hlt => ?_⟩
  · have hinserts : ∀ f ∈ edits.filter (Edit.insertsAt (size u)), f.insertsAt (size u) = true :=
      fun f hf => List.of_mem_filter hf
    have hsplice := splice_insertions (v := v) hinserts (edits.filter fun f => !f.insertsAt (size u))
    rwa [hsplit] at hsplice
  · apply newText_prefix_splice (e := e)
    · rw [← hsplit] at h
      apply h.of_append_right
      intro f hf
      rw [hsplit] at h
      exact h.le_start f (List.mem_of_mem_filter hf)
    · intro f hf
      simpa using List.of_mem_filter hf
    · have hnot : ¬ e.insertsAt (size u) = true := by
        rw [insertsAt_iff]
        omega
      exact List.mem_filter.2 ⟨he, by simpa using hnot⟩
    · exact hstart

/-- **What stands where an edit starts.** The text before it has its own edits applied; then comes what
is inserted there, and then the text of the edit, if it replaces something. -/
theorem exists_splice_eq_append (h : InOrderFrom t 0 edits) (he : e ∈ edits) :
    ∃ front after, splice t 0 edits = front ++ insertedAt edits e.start ++ after ∧
      size front = shift (edits.filter fun f => decide (f.start < e.start)) e.start ∧
      (e.start < e.stop → e.newText <+: after) := by
  obtain ⟨u, v, rfl, hu⟩ := Text.isBoundary_iff.1 (h.fits e he).isBoundary_start
  have hsplit : edits.filter (fun f => decide (f.start < e.start)) ++
      edits.filter (fun f => !decide (f.start < e.start)) = edits := by
    apply filter_append_filter_not
    refine h.pairwise.imp_of_mem fun {f g} hf hg hfg hlt => ?_
    have := (h.fits f hf).start_le_stop
    simp only [decide_eq_true_eq] at hlt ⊢
    omega
  have hmem : e ∈ edits.filter fun f => !decide (f.start < e.start) :=
    List.mem_filter.2 ⟨he, by simp⟩
  have hinserted : insertedAt (edits.filter fun f => !decide (f.start < e.start)) e.start =
      insertedAt edits e.start := by
    rw [insertedAt, insertedAt, List.filter_filter]
    congr 1
    apply List.filter_congr
    intro f _
    cases hf : f.insertsAt e.start with
    | true => simp [(insertsAt_iff.1 hf).1]
    | false => rfl
  generalize edits.filter (fun f => decide (f.start < e.start)) = before at hsplit ⊢
  generalize hlater : edits.filter (fun f => !decide (f.start < e.start)) = later at *
  have hbefore : InOrderFrom u 0 before := by
    rw [← hsplit] at h
    apply h.of_append_left
    intro f hf
    rw [hu]
    exact (List.pairwise_append.1 h.pairwise).2.2 f hf e hmem
  have hlater' : InOrderFrom (u ++ v) (size u) later := by
    have hstarts : ∀ f ∈ later, size u ≤ f.start := by
      intro f hf
      rw [← hlater] at hf
      simpa [hu] using List.of_mem_filter hf
    rw [← hsplit] at h
    exact h.of_append_right hstarts
  obtain ⟨after, hafter, hprefix⟩ := exists_splice_eq hlater' hmem hu.symm
  have happend : splice (u ++ v) 0 (before ++ later) =
      splice u 0 before ++ splice (u ++ v) (size u) later :=
    splice_append (u := []) hbefore hlater'
  have hsize : size (splice u 0 before) + bytesOut before = size u + bytesIn before :=
    size_splice (u := []) hbefore
  refine ⟨splice u 0 before, after, ?_, ?_, hprefix⟩
  · rw [← hinserted, ← hu, List.append_assoc, ← hafter, ← happend, hsplit]
  · rw [shift, ← hu]
    omega

/-! ### The whole batch -/

/-- **A batch is applied as if one by one.** Its result is that of applying its edits from the last to
the first in their order, each without its check and at its own offsets, to the text left by those
before it.

Each byte that no edit replaces stands in the result, at its offset moved by what the edits up to it put
in and take out, and such bytes stay in order. At the offset where an edit starts, moved likewise, stand
the texts inserted there in the order in which they are given, and right after them the text of the
edit, if it replaces something. -/
theorem replace_applies_one_by_one (h : replace t edits = .ok result) :
    (edits.mergeSort Edit.precedes).foldrM (fun e current => replace current [e.unchecked]) t =
        .ok result ∧
      (∀ i < size t, Keeps edits i →
        (utf8 result)[shift (edits.filter fun e => decide (e.start ≤ i)) i]? = (utf8 t)[i]? ∧
          ∀ j < size t, i < j → Keeps edits j →
            shift (edits.filter fun e => decide (e.start ≤ i)) i <
              shift (edits.filter fun e => decide (e.start ≤ j)) j) ∧
      ∀ e ∈ edits, ∃ front after, result = front ++ insertedAt edits e.start ++ after ∧
        size front = shift (edits.filter fun f => decide (f.start < e.start)) e.start ∧
        (e.start < e.stop → e.newText <+: after) := by
  obtain ⟨hin, rfl⟩ := inOrderFrom_of_replace_eq_ok h
  have hperm := edits.mergeSort_perm Edit.precedes
  have hkeeps : ∀ i, Keeps edits i → Keeps (edits.mergeSort Edit.precedes) i := fun i hi e he =>
    hi e (hperm.mem_iff.1 he)
  refine ⟨?_, fun i hlt hi => ⟨?_, fun j _ hij hj => ?_⟩, fun e he => ?_⟩
  · exact foldrM_replace (u := []) hin
  · have hout := Edit.bytesOut_le hin (Nat.zero_le i) (hkeeps i hi)
    rw [← Edit.shift_perm (hperm.filter _)]
    apply getElem?_utf8_splice (u := []) hin (Nat.zero_le i) hlt (hkeeps i hi)
    rw [shift, Text.size_nil]
    omega
  · rw [← Edit.shift_perm (hperm.filter _), ← Edit.shift_perm (hperm.filter _)]
    exact Edit.shift_lt hin (Nat.zero_le i) (hkeeps i hi) hij (hkeeps j hj)
  · rw [← insertedAt_mergeSort, ← Edit.shift_perm (hperm.filter _)]
    exact exists_splice_eq_append hin (hperm.mem_iff.2 he)

/-- Two insertions before a letter of two bytes, which is replaced, and a deletion. -/
def letterBatch : List Edit :=
  [⟨1, 3, ['e'], some (.exact ['é'])⟩, ⟨4, 5, [], none⟩, ⟨1, 1, ['+'], none⟩, ⟨1, 1, ['-'], none⟩]

theorem replace_applies_one_by_one_letterBatch :
    replace ['a', 'é', 'b', 'c'] letterBatch = .ok ['a', '+', '-', 'e', 'b'] ∧
      (letterBatch.mergeSort Edit.precedes).foldrM (fun e current => replace current [e.unchecked])
        ['a', 'é', 'b', 'c'] = .ok ['a', '+', '-', 'e', 'b'] ∧
      Keeps letterBatch 3 ∧
      (utf8 ['a', '+', '-', 'e', 'b'])[4]? = (utf8 ['a', 'é', 'b', 'c'])[3]? := by
  have hsorted : letterBatch.mergeSort Edit.precedes =
      [⟨1, 1, ['+'], none⟩, ⟨1, 1, ['-'], none⟩, ⟨1, 3, ['e'], some (.exact ['é'])⟩,
        ⟨4, 5, [], none⟩] := by
    simp [letterBatch, List.mergeSort, Edit.precedes]
  have h : replace ['a', 'é', 'b', 'c'] letterBatch = .ok ['a', '+', '-', 'e', 'b'] := by
    rw [replace_eq_ok_iff, hsorted]
    decide
  have hkeeps : Keeps letterBatch 3 := by
    unfold Keeps
    decide
  obtain ⟨hone, hbytes, -⟩ := replace_applies_one_by_one h
  exact ⟨h, hone, hkeeps, (hbytes 3 (by decide) hkeeps).1⟩

end SourceSpans
