import SourceSpans.Proofs.Source.Offsets
import SourceSpans.Proofs.Text.Boundaries

/-!
# Tokens are faithful to their text

The offsets of a token are not kept from the reading of the text: they are looked up again from the
positions of the token, after identifiers have been joined. Still each token of a text is what stands
between its offsets, and its positions are those of its offsets (`tokens_faithful`).

The reason is that a token that stands in a text has places of it as positions
(`RawToken.StandsIn`), and the offset of the place after a beginning is the size of the beginning
(`RawToken.StandsIn.exists_offsets`).
-/

namespace SourceSpans

/-- The offsets of a token are boundaries of a text. Between them stands what the token spells, they have
the positions of the token, and the token starts on its line. -/
structure Token.FaithfulTo (a : Token) (t : Text) : Prop where
  start_le_stop : a.startOffset ≤ a.stopOffset
  stop_le_size : a.stopOffset ≤ t.size
  isBoundary_start : t.isBoundary a.startOffset = true
  isBoundary_stop : t.isBoundary a.stopOffset = true
  slice?_eq : t.slice? a.startOffset a.stopOffset = some a.text
  position?_start : t.position? a.startOffset = some a.start
  position?_stop : t.position? a.stopOffset = some a.stop
  line_eq : a.line = t.lineText a.start.line

variable {t : Text}

/-- The offsets of a token that stands in a text are the sizes of what stands before and up to it. -/
theorem RawToken.StandsIn.exists_offsets {a : RawToken} (h : a.StandsIn t) :
    ∃ u v, u ++ a.text ++ v = t ∧ Position.start.advance u = a.start ∧
      Position.start.advance (u ++ a.text) = a.stop ∧
      t.offset a.start = u.size ∧ t.offset a.stop = (u ++ a.text).size := by
  obtain ⟨u, v, rfl, hu⟩ := h.spelled
  have hstop : Position.start.advance (u ++ a.text) = a.stop := by
    rw [Position.advance_append, hu, h.stop_eq]
  refine ⟨u, v, rfl, hu, hstop, ?_, ?_⟩
  · rw [← hu, List.append_assoc, Text.offset_advance]
  · rw [← hstop, Text.offset_advance]

/-- A token that stands in a text is faithful to it once its offsets are looked up. -/
theorem RawToken.StandsIn.faithfulTo {a : RawToken} (h : a.StandsIn t) (index : Nat) :
    Token.FaithfulTo ⟨a, index, t.offset a.start, t.offset a.stop⟩ t := by
  obtain ⟨u, v, ht, hu, hstop, hstartOffset, hstopOffset⟩ := h.exists_offsets
  have ht' : t = u ++ (a.text ++ v) := by rw [← ht, List.append_assoc]
  have hsize : (u ++ a.text).size = u.size + a.text.size := Text.size_append u a.text
  constructor
  · show t.offset a.start ≤ t.offset a.stop
    omega
  · show t.offset a.stop ≤ t.size
    rw [hstopOffset, ← ht, Text.size_append (u ++ a.text)]
    omega
  · exact Text.isBoundary_iff.2 ⟨u, a.text ++ v, ht', hstartOffset.symm⟩
  · exact Text.isBoundary_iff.2 ⟨u ++ a.text, v, ht.symm, hstopOffset.symm⟩
  · exact Text.slice?_eq_some_iff.2
      ⟨u, v, ht.symm, hstartOffset.symm, by rw [← hsize]; exact hstopOffset.symm⟩
  · show t.position? (t.offset a.start) = some a.start
    rw [hstartOffset, ht', Text.position?_size, hu]
  · show t.position? (t.offset a.stop) = some a.stop
    rw [hstopOffset, ← ht, Text.position?_size, hstop]
  · exact h.line_eq

namespace Source

theorem getElem?_build (t : Text) (tokens : List RawToken) (i : Nat) :
    (build t tokens).tokens[i]? =
      tokens[i]?.map fun a => ⟨a, i, t.offset a.start, t.offset a.stop⟩ := by
  simp [build, Text.offset]

/-- The edges of the tokens of a text are boundaries of the text. -/
theorem isBoundary_edgeOffset {source : Source} (h : ofText? t = .ok source) (edge : Nat) :
    Text.isBoundary t (source.edgeOffset edge) = true := by
  obtain ⟨joined, rfl, -, hstands⟩ := exists_of_ofText? h
  have hend : Text.isBoundary t (Text.size t) = true :=
    Text.isBoundary_iff.2 ⟨t, [], (List.append_nil t).symm, rfl⟩
  unfold edgeOffset startOffset stopOffset
  rw [getElem?_build]
  rcases hraw : joined[edge / 2]? with _ | a
  · split_ifs <;> exact hend
  · have hfaithful := (hstands a (List.mem_of_getElem? hraw)).faithfulTo (edge / 2)
    split_ifs
    · exact hfaithful.isBoundary_start
    · exact hfaithful.isBoundary_stop

/-- The offsets of edges are in the order of the edges, for edges past the last token too. -/
theorem edgeOffset_mono {source : Source} (h : ofText? t = .ok source) {a b : Nat} (hab : a ≤ b) :
    source.edgeOffset a ≤ source.edgeOffset b := by
  rcases lt_or_ge b (2 * source.size) with hb | hb
  · exact (inOrder_of_ofText? h).edgeOffset_le hab hb
  · have hle := Text.le_size_of_isBoundary (isBoundary_edgeOffset h a)
    rw [edgeOffset_of_size_le hb]
    obtain ⟨joined, rfl, -, -⟩ := exists_of_ofText? h
    exact hle

/-- Every token of a source that was read from a text knows its index and is faithful to the text. -/
theorem faithfulTo_of_ofText? {source : Source} (h : ofText? t = .ok source) {i : Nat} {a : Token}
    (ha : source.tokens[i]? = some a) : a.index = i ∧ a.FaithfulTo t := by
  obtain ⟨joined, rfl, -, hstands⟩ := exists_of_ofText? h
  rw [getElem?_build] at ha
  obtain ⟨raw, hraw, rfl⟩ := Option.map_eq_some_iff.1 ha
  exact ⟨rfl, (hstands raw (List.mem_of_getElem? hraw)).faithfulTo i⟩

theorem text_of_ofText? {source : Source} (h : ofText? t = .ok source) : source.text = t := by
  obtain ⟨joined, rfl, -, -⟩ := exists_of_ofText? h
  rfl

/-- **Tokens are faithful to their text.** Every token of a source that was read from a text knows its
index and is faithful to the text, and it stops where the next token starts or before. -/
theorem tokens_faithful {source : Source} (h : ofText? t = .ok source) :
    source.text = t ∧ ∀ i a, source.tokens[i]? = some a →
      a.index = i ∧ a.FaithfulTo t ∧
        ∀ b, source.tokens[i + 1]? = some b → a.stopOffset ≤ b.startOffset := by
  refine ⟨text_of_ofText? h, fun i a ha => ?_⟩
  obtain ⟨hindex, hfaithful⟩ := faithfulTo_of_ofText? h ha
  refine ⟨hindex, hfaithful, fun b hb => ?_⟩
  have hi : i < source.size := (Array.getElem?_eq_some_iff.1 ha).1
  have hi' : i + 1 < source.size := (Array.getElem?_eq_some_iff.1 hb).1
  have hle := (inOrder_of_ofText? h i hi).2 hi'
  rwa [stopOffset, startOffset, ha, hb] at hle

/-- A name with a middle dot, a block, and a string of two lines in it. -/
def blockText : Text := "ℓ·1:\n  '''\n'''".toList

/-- The tokens of `blockText`. -/
def blockTokens : List RawToken :=
  let first := "ℓ·1:\n".toList
  let second := "  '''\n".toList
  let third := "'''".toList
  [⟨.name, "ℓ·1".toList, ⟨1, 0⟩, ⟨1, 3⟩, first⟩,
    ⟨.op, ":".toList, ⟨1, 3⟩, ⟨1, 4⟩, first⟩,
    ⟨.newline, "\n".toList, ⟨1, 4⟩, ⟨2, 0⟩, first⟩,
    ⟨.indent, "  ".toList, ⟨2, 0⟩, ⟨2, 2⟩, second⟩,
    ⟨.string, "'''\n'''".toList, ⟨2, 2⟩, ⟨3, 3⟩, second⟩,
    ⟨.newline, [], ⟨3, 3⟩, ⟨3, 3⟩, third⟩,
    ⟨.dedent, [], ⟨3, 3⟩, ⟨3, 3⟩, third⟩,
    ⟨.endMarker, [], ⟨3, 3⟩, ⟨3, 3⟩, third⟩]

theorem tokens_faithful_blockText :
    ofText? blockText = .ok (build blockText blockTokens) ∧
      ∀ i a, (build blockText blockTokens).tokens[i]? = some a →
        a.index = i ∧ a.FaithfulTo blockText ∧
          ∀ b, (build blockText blockTokens).tokens[i + 1]? = some b →
            a.stopOffset ≤ b.startOffset := by
  have h : ofText? blockText = .ok (build blockText blockTokens) := by decide +kernel
  exact ⟨h, (tokens_faithful h).2⟩

end Source

end SourceSpans
