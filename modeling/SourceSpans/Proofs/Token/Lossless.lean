import SourceSpans.Proofs.Source.Faithful
import SourceSpans.Proofs.Token.Reading

/-!
# No text is lost

The tokens that stand in a text are slices of it, one after the other, and what is before, between and
after them only separates: blanks and continued line ends (`tokens_rebuild_text`). Left out are the
layout tokens before a logical line. These mark where blocks begin and end, and an `INDENT` repeats white
space that separates tokens.

* **Gaps** (`Lexeme.separates_of_gap`): the lexemes that are no token separate.
* **Rules** (`Layout.Reads.rebuilds`): by each rule of reading, the tokens go on rebuilding the text.
-/

namespace SourceSpans

/-! ### Separating text -/

namespace Text

/-- What separates tokens: a blank or a continued line end. -/
def separators : List Text := [[' '], ['\t'], ['\x0c'], ['\\', '\n'], ['\\', '\r', '\n']]

/-- A text that only separates tokens: any number of separators. -/
def Separates (gap : Text) : Prop :=
  ∃ parts : List Text, parts.flatten = gap ∧ ∀ part ∈ parts, part ∈ separators

theorem separates_nil : Separates [] := ⟨[], rfl, nofun⟩

theorem separates_of_mem {part : Text} (h : part ∈ separators) : Separates part :=
  ⟨[part], List.append_nil part, fun _ hmem => List.mem_singleton.1 hmem ▸ h⟩

theorem Separates.append {gap gap' : Text} (h : Separates gap) (h' : Separates gap') :
    Separates (gap ++ gap') := by
  obtain ⟨parts, rfl, hparts⟩ := h
  obtain ⟨parts', rfl, hparts'⟩ := h'
  refine ⟨parts ++ parts', List.flatten_append, fun part hmem => ?_⟩
  rcases List.mem_append.1 hmem with hmem | hmem
  · exact hparts part hmem
  · exact hparts' part hmem

theorem separates_of_isGap {blanks : Text} (h : ∀ c ∈ blanks, Lexeme.isGap c = true) :
    Separates blanks := by
  induction blanks with
  | nil => exact separates_nil
  | cons c blanks ih =>
    rw [List.forall_mem_cons] at h
    have hc : [c] ∈ separators := by
      have hgap := h.1
      simp only [Lexeme.isGap, Bool.or_eq_true, beq_iff_eq] at hgap
      rcases hgap with (rfl | rfl) | rfl <;> decide
    exact (separates_of_mem hc).append (ih h.2)

end Text

theorem Lexeme.separates_take_gapLength (t : Text) : Text.Separates (t.take (gapLength t)) := by
  unfold gapLength
  split
  · exact Text.separates_of_mem (show ['\\', '\n'] ∈ Text.separators by decide)
  · exact Text.separates_of_mem (show ['\\', '\r', '\n'] ∈ Text.separators by decide)
  · refine Text.separates_of_isGap fun c hc => ?_
    rw [← List.prefix_iff_eq_take.1 (List.takeWhile_prefix isGap)] at hc
    exact List.mem_takeWhile_imp hc

/-- A lexeme that is no token separates. -/
theorem Lexeme.separates_of_gap {t : Text} {l : Lexeme} (hl : l ∈ lexemes t) (hcls : l.cls = .gap) :
    l.text.Separates := by
  obtain ⟨part, -, rfl⟩ := exists_of_mem_lexemes hl
  rcases first_cases part with ⟨-, heq⟩ | ⟨-, heq⟩ | ⟨-, heq⟩ | ⟨hnot, -⟩
  · rw [heq]
    exact separates_take_gapLength part
  · rw [heq] at hcls
    cases hcls
  · rw [heq] at hcls
    cases hcls
  · exact absurd hcls hnot

/-! ### Rebuilding a text -/

/-- Tokens rebuild a text that starts at a place: each stands where the text before it and a separating
text end, and stops where its own text ends, and after the last one comes a separating text. -/
inductive Rebuilds : Position → List RawToken → Text → Prop
  | nil {place : Position} {gap : Text} (hgap : gap.Separates) : Rebuilds place [] gap
  | cons {place : Position} {gap rest : Text} {a : RawToken} {tokens : List RawToken}
      (hgap : gap.Separates) (hstart : a.start = place.advance gap)
      (hstop : a.stop = a.start.advance a.text) (h : Rebuilds a.stop tokens rest) :
      Rebuilds place (a :: tokens) (gap ++ a.text ++ rest)

namespace Rebuilds

variable {place : Position} {tokens : List RawToken} {rest : Text} {lines : List Text}

theorem gap {gap : Text} (hgap : gap.Separates) (h : Rebuilds (place.advance gap) tokens rest) :
    Rebuilds place tokens (gap ++ rest) := by
  cases h with
  | nil hgap' => exact .nil (hgap.append hgap')
  | @cons _ gap' rest a tokens hgap' hstart hstop h =>
    rw [← Position.advance_append] at hstart
    have hcons := cons (hgap.append hgap') hstart hstop h
    rwa [List.append_assoc, List.append_assoc, ← List.append_assoc gap'] at hcons

theorem token {kind : TokenKind} (text : Text) (h : Rebuilds (place.advance text) tokens rest) :
    Rebuilds place (Layout.tokenAt lines kind place text :: tokens) (text ++ rest) :=
  cons (a := Layout.tokenAt lines kind place text) Text.separates_nil rfl rfl h

theorem errorTokens {text : Text} (h : Rebuilds (place.advance text) tokens rest) :
    Rebuilds place (Layout.errorTokens lines place text ++ tokens) (text ++ rest) := by
  induction text generalizing place with
  | nil => exact h
  | cons c text ih => exact token [c] (ih h)

theorem codeTokens {l : Lexeme} (hl : l.isCode = true)
    (h : Rebuilds (place.advance l.text) tokens rest) :
    Rebuilds place (Layout.codeTokens lines place l ++ tokens) (l.text ++ rest) := by
  rcases Layout.codeTokens_cases hl lines place with heq | ⟨kind, -, heq⟩ <;> rw [heq]
  · exact errorTokens h
  · exact token l.text h

/-- Tokens that rebuild a text are slices of it, one after the other. -/
theorem slices {u : Text} (h : Rebuilds (Position.start.advance u) tokens rest) :
    (∀ a ∈ tokens, u.size ≤ Text.offset (u ++ rest) a.start ∧
      (u ++ rest).slice? (Text.offset (u ++ rest) a.start) (Text.offset (u ++ rest) a.stop) =
        some a.text) ∧
    tokens.Pairwise fun a b =>
      Text.offset (u ++ rest) a.stop ≤ Text.offset (u ++ rest) b.start := by
  generalize hplace : Position.start.advance u = place at h
  induction h generalizing u with
  | nil => exact ⟨nofun, .nil⟩
  | @cons place gap rest a tokens _ hstart hstop _ ih =>
    subst hplace
    rw [← Position.advance_append] at hstart
    rw [hstart, ← Position.advance_append] at hstop
    obtain ⟨hslices, hpairwise⟩ := ih hstop.symm
    have htext : u ++ (gap ++ a.text ++ rest) = u ++ gap ++ a.text ++ rest := by simp
    have hstartOffset : Text.offset (u ++ gap ++ a.text ++ rest) a.start = (u ++ gap).size := by
      rw [hstart, List.append_assoc (u ++ gap), Text.offset_advance]
    have hstopOffset : Text.offset (u ++ gap ++ a.text ++ rest) a.stop =
        (u ++ gap ++ a.text).size := by
      rw [hstop, Text.offset_advance]
    rw [htext]
    refine ⟨?_, List.pairwise_cons.2 ⟨fun b hb => ?_, hpairwise⟩⟩
    · rw [List.forall_mem_cons]
      refine ⟨⟨?_, ?_⟩, fun b hb => ⟨?_, (hslices b hb).2⟩⟩
      · rw [hstartOffset, Text.size_append]
        exact Nat.le_add_right _ _
      · rw [hstartOffset, hstopOffset, Text.slice?_append_append]
      · refine Nat.le_trans ?_ (hslices b hb).1
        rw [List.append_assoc, Text.size_append]
        exact Nat.le_add_right _ _
    · rw [hstopOffset]
      exact (hslices b hb).1

end Rebuilds

/-! ### Reading -/

/-- The tokens that stand in the text. -/
def standing (tokens : List RawToken) : List RawToken := tokens.filter fun a => !a.kind.isBlockMark

section standing

variable {lines : List Text} {tokens : List RawToken}

theorem standing_cons {a : RawToken} (h : a.kind.isBlockMark = false) (tokens : List RawToken) :
    standing (a :: tokens) = a :: standing tokens := by
  rw [standing, List.filter_cons_of_pos (by rw [h]; rfl), standing]

theorem standing_append (ts ts' : List RawToken) :
    standing (ts ++ ts') = standing ts ++ standing ts' := List.filter_append ts ts'

theorem standing_codeTokens (lines : List Text) (place : Position) (l : Lexeme) :
    standing (Layout.codeTokens lines place l) = Layout.codeTokens lines place l := by
  refine List.filter_eq_self.2 fun a ha => ?_
  rw [TokenKind.isBlockMark_of_isCode (Layout.isCode_of_mem_codeTokens ha)]
  rfl

theorem standing_marks {s : Layout} {marks : List RawToken} {indents : List Nat}
    (h : Layout.indentTo lines s = .ok (marks, indents)) : standing marks = [] := by
  refine List.filter_eq_nil_iff.2 fun a ha => ?_
  rw [Layout.isBlockMark_of_mem_marks h ha]
  exact nofun

theorem standing_finish (lines : List Text) (s : Layout) :
    standing (Layout.finish lines s) =
      (if s.hasCode then [Layout.tokenAt lines .newline s.place []] else [])
        ++ [Layout.tokenAt lines .endMarker s.place []] := by
  have hdedents : standing (List.replicate (s.indents.length - 1)
      (Layout.tokenAt lines .dedent s.place [])) = [] :=
    List.filter_eq_nil_iff.2 fun a ha => by
      rw [(List.mem_replicate.1 ha).2]
      exact nofun
  rw [Layout.finish, standing_append, standing_append, hdedents, List.append_nil]
  split_ifs <;> rfl

end standing

/-- **By each rule of reading, the tokens go on rebuilding the text.** -/
theorem Layout.Reads.rebuilds {lines : List Text} {s : Layout} {ls : List Lexeme}
    {tokens : List RawToken} (h : Layout.Reads lines s ls tokens)
    (hgaps : ∀ l ∈ ls, l.cls = .gap → l.text.Separates) :
    Rebuilds s.place (standing tokens) (ls.map Lexeme.text).flatten := by
  induction h with
  | finish s =>
    have hend : Rebuilds s.place [tokenAt lines .endMarker s.place []] [] :=
      .token [] (.nil Text.separates_nil)
    rw [standing_finish]
    split_ifs
    · exact .token [] hend
    · exact hend
  | gap hcls _ ih =>
    rw [List.forall_mem_cons] at hgaps
    exact .gap (hgaps.1 hcls) (ih hgaps.2)
  | comment _ _ ih =>
    rw [List.forall_mem_cons] at hgaps
    rw [standing_cons rfl]
    exact .token _ (ih hgaps.2)
  | newline _ _ _ _ ih =>
    rw [List.forall_mem_cons] at hgaps
    rw [standing_cons rfl]
    exact .token _ (ih hgaps.2)
  | nl _ _ _ ih =>
    rw [List.forall_mem_cons] at hgaps
    rw [standing_cons rfl]
    exact .token _ (ih hgaps.2)
  | opens hl _ _ hmarks _ ih =>
    rw [List.forall_mem_cons] at hgaps
    rw [standing_append, standing_append, standing_marks hmarks, standing_codeTokens]
    exact .codeTokens hl (ih hgaps.2)
  | code hl _ _ _ ih =>
    rw [List.forall_mem_cons] at hgaps
    rw [standing_append, standing_codeTokens]
    exact .codeTokens hl (ih hgaps.2)

/-- **The tokens of a text rebuild it.** The tokens that stand in the text and the separating texts
before, between and after them make up the text, and each of the tokens is the slice between its
offsets, which come after those of the tokens before it. -/
theorem tokens_rebuild_text {t : Text} {raw : List RawToken} (h : tokenize t = .ok raw) :
    Rebuilds Position.start (standing raw) t ∧
      (standing raw).Pairwise (fun a b => t.offset a.stop ≤ t.offset b.start) ∧
      ∀ a ∈ standing raw, t.slice? (t.offset a.start) (t.offset a.stop) = some a.text := by
  have hrebuilds := (reads_of_tokenize h).rebuilds fun l => Lexeme.separates_of_gap
  rw [flatten_lexemes] at hrebuilds
  obtain ⟨hslices, hpairwise⟩ := Rebuilds.slices (u := []) hrebuilds
  exact ⟨hrebuilds, hpairwise, fun a ha => (hslices a ha).2⟩

/-- A block with a string that does not close, a continued line and a comment at the end. -/
def unclosedText : Text := "if x:\n\t'é \\\n+ y # c".toList

/-- The tokens of `unclosedText`. -/
def unclosedTokens : List RawToken :=
  let first := "if x:\n".toList
  let second := "\t'é \\\n".toList
  let third := "+ y # c".toList
  [⟨.name, "if".toList, ⟨1, 0⟩, ⟨1, 2⟩, first⟩,
    ⟨.name, "x".toList, ⟨1, 3⟩, ⟨1, 4⟩, first⟩,
    ⟨.op, ":".toList, ⟨1, 4⟩, ⟨1, 5⟩, first⟩,
    ⟨.newline, "\n".toList, ⟨1, 5⟩, ⟨2, 0⟩, first⟩,
    ⟨.indent, "\t".toList, ⟨2, 0⟩, ⟨2, 1⟩, second⟩,
    ⟨.errorToken, "'".toList, ⟨2, 1⟩, ⟨2, 2⟩, second⟩,
    ⟨.errorToken, "é".toList, ⟨2, 2⟩, ⟨2, 3⟩, second⟩,
    ⟨.op, "+".toList, ⟨3, 0⟩, ⟨3, 1⟩, third⟩,
    ⟨.name, "y".toList, ⟨3, 2⟩, ⟨3, 3⟩, third⟩,
    ⟨.comment, "# c".toList, ⟨3, 4⟩, ⟨3, 7⟩, third⟩,
    ⟨.newline, [], ⟨3, 7⟩, ⟨3, 7⟩, third⟩,
    ⟨.dedent, [], ⟨3, 7⟩, ⟨3, 7⟩, third⟩,
    ⟨.endMarker, [], ⟨3, 7⟩, ⟨3, 7⟩, third⟩]

theorem tokens_rebuild_unclosedText :
    tokenize unclosedText = .ok unclosedTokens ∧
      Rebuilds Position.start (standing unclosedTokens) unclosedText ∧
      (standing unclosedTokens).Pairwise
        (fun a b => unclosedText.offset a.stop ≤ unclosedText.offset b.start) ∧
      ∀ a ∈ standing unclosedTokens,
        unclosedText.slice? (unclosedText.offset a.start) (unclosedText.offset a.stop) =
          some a.text := by
  have h : tokenize unclosedText = .ok unclosedTokens := by decide +kernel
  exact ⟨h, tokens_rebuild_text h⟩

end SourceSpans
