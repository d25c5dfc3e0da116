import Mathlib.Computability.Language
import Mathlib.Order.CompletePartialOrder
import SourceSpans.Proofs.Token.LogicalLines

/-!
# The grammar of tokens

The kinds of the tokens of a text form a word of a regular language (`Grammar.stream`): logical lines, each
closed by a `NEWLINE`, then the comments and line breaks after the last of them, the ends of the open
blocks, and the end of the text. The marks of blocks are balanced besides, which no regular language can
say (`Grammar.Closes`).

* **Languages**: comments and line breaks may come before anything that starts a logical line
  (`Grammar.extra_mul_stream_le`), a logical line begins with the marks of blocks and code
  (`Grammar.begin_mul_inLine_le`), and what may follow code is a language of its own
  (`Grammar.inLine`).
* **Rules** (`Layout.Reads.mem_stream`, `Layout.Reads.closes`): by each rule of reading, the rest of the
  tokens stays in the language of the state, and the marks of blocks close what is open.
-/

namespace SourceSpans

open scoped Computability

namespace Grammar

open TokenKind (name number string op comment newline nl indent dedent endMarker errorToken)

/-! ### The languages -/

/-- One token of a kind. -/
def one (k : TokenKind) : Language TokenKind := {[k]}

/-- A coding token of a logical line. -/
def code : Language TokenKind := one name + one number + one string + one op + one errorToken

/-- A comment, or a line break that ends no logical line. -/
def extra : Language TokenKind := one comment + one nl

/-- The marks of the blocks that a logical line opens or closes. -/
def marks : Language TokenKind := one indent + (one dedent)∗

/-- A logical line, with the comments and line breaks before it. -/
def line : Language TokenKind := extra∗ * marks * code * (code + extra)∗ * one newline

/-- The tokens of a text. -/
def stream : Language TokenKind := line∗ * extra∗ * (one dedent)∗ * one endMarker

/-- What may come after a coding token. -/
def inLine : Language TokenKind := (code + extra)∗ * one newline * stream

variable {k : TokenKind} {ks : List TokenKind} {n : Nat}

/-! ### Laws of the languages -/

theorem extra_mul_line_le : extra * line ≤ line := by
  have hextra : extra * extra∗ ≤ extra∗ := mul_kstar_le_kstar
  calc extra * line = extra * extra∗ * marks * code * (code + extra)∗ * one newline := by
        simp only [line, mul_assoc]
    _ ≤ extra∗ * marks * code * (code + extra)∗ * one newline := by gcongr
    _ = line := rfl

theorem extra_mul_stream_le : extra * stream ≤ stream := by
  have hextra : extra * extra∗ ≤ extra∗ := mul_kstar_le_kstar
  have hline : extra * line ≤ line := extra_mul_line_le
  have hstar : extra * line∗ ≤ extra + line * line∗ := by
    calc extra * line∗ = extra * (1 + line * line∗) := by rw [one_add_mul_kstar]
      _ = extra + extra * line * line∗ := by rw [mul_add, mul_one, mul_assoc]
      _ ≤ extra + line * line∗ := by gcongr
  calc extra * stream = extra * line∗ * extra∗ * (one dedent)∗ * one endMarker := by
        simp only [stream, mul_assoc]
    _ ≤ (extra + line * line∗) * extra∗ * (one dedent)∗ * one endMarker := by gcongr
    _ = (extra * extra∗ + line * line∗ * extra∗) * (one dedent)∗ * one endMarker := by rw [add_mul]
    _ ≤ (extra∗ + line * line∗ * extra∗) * (one dedent)∗ * one endMarker := by gcongr
    _ = (1 + line * line∗) * extra∗ * (one dedent)∗ * one endMarker := by
        rw [add_mul 1, one_mul]
    _ = stream := by rw [one_add_mul_kstar, stream]

theorem begin_mul_inLine_le : marks * code * inLine ≤ stream := by
  have hone : (1 : Language TokenKind) ≤ extra∗ := one_le_kstar
  have hline : line * line∗ ≤ line∗ := mul_kstar_le_kstar
  calc marks * code * inLine
      = 1 * marks * code * (code + extra)∗ * one newline * stream := by
        simp only [inLine, one_mul, mul_assoc]
    _ ≤ extra∗ * marks * code * (code + extra)∗ * one newline * stream := by gcongr
    _ = line * line∗ * extra∗ * (one dedent)∗ * one endMarker := by
        simp only [line, stream, mul_assoc]
    _ ≤ stream := by rw [stream]; gcongr

theorem goOn_mul_inLine_le : (code + extra) * inLine ≤ inLine := by
  have hstar : (code + extra) * (code + extra)∗ ≤ (code + extra)∗ := mul_kstar_le_kstar
  calc (code + extra) * inLine = (code + extra) * (code + extra)∗ * one newline * stream := by
        simp only [inLine, mul_assoc]
    _ ≤ (code + extra)∗ * one newline * stream := by gcongr
    _ = inLine := rfl

theorem newline_mul_stream_le : one newline * stream ≤ inLine := by
  have hone : (1 : Language TokenKind) ≤ (code + extra)∗ := one_le_kstar
  calc one newline * stream = 1 * one newline * stream := by rw [one_mul]
    _ ≤ (code + extra)∗ * one newline * stream := by gcongr
    _ = inLine := rfl

theorem end_le_stream : (one dedent)∗ * one endMarker ≤ stream := by
  have hline : (1 : Language TokenKind) ≤ line∗ := one_le_kstar
  have hextra : (1 : Language TokenKind) ≤ extra∗ := one_le_kstar
  calc (one dedent)∗ * one endMarker = 1 * 1 * (one dedent)∗ * one endMarker := by
        rw [one_mul, one_mul]
    _ ≤ line∗ * extra∗ * (one dedent)∗ * one endMarker := by gcongr
    _ = stream := rfl

/-! ### Words -/

theorem append_mem {l m g : Language TokenKind} {u v : List TokenKind} (hle : l * m ≤ g) (hu : u ∈ l)
    (hv : v ∈ m) : u ++ v ∈ g := hle (Language.append_mem_mul hu hv)

theorem mem_one (k : TokenKind) : [k] ∈ one k := rfl

theorem mem_code (h : k.isCode = true) : [k] ∈ code := by
  cases k with
  | name => exact Or.inl (Or.inl (Or.inl (Or.inl rfl)))
  | number => exact Or.inl (Or.inl (Or.inl (Or.inr rfl)))
  | string => exact Or.inl (Or.inl (Or.inr rfl))
  | op => exact Or.inl (Or.inr rfl)
  | errorToken => exact Or.inr rfl
  | _ => cases h

theorem comment_mem_extra : [comment] ∈ extra := Or.inl rfl

theorem nl_mem_extra : [nl] ∈ extra := Or.inr rfl

theorem replicate_dedent_mem (n : Nat) : List.replicate n dedent ∈ (one dedent)∗ := by
  rw [Language.mem_kstar]
  refine ⟨List.replicate n [dedent], ?_, ?_⟩
  · simp
  · intro w hw
    rw [(List.mem_replicate.1 hw).2]
    exact mem_one dedent

theorem cons_mem_stream (hk : [k] ∈ extra) (h : ks ∈ stream) : k :: ks ∈ stream :=
  append_mem (u := [k]) extra_mul_stream_le hk h

theorem cons_mem_inLine (hk : [k] ∈ code + extra) (h : ks ∈ inLine) : k :: ks ∈ inLine :=
  append_mem (u := [k]) goOn_mul_inLine_le hk h

/-- Comments and line breaks that end no logical line may come anywhere. -/
theorem cons_mem_of_mem_extra {c : Bool} (hk : [k] ∈ extra) (h : ks ∈ if c then inLine else stream) :
    k :: ks ∈ if c then inLine else stream := by
  cases c with
  | false => exact cons_mem_stream hk h
  | true => exact cons_mem_inLine (Or.inr hk) h

theorem newline_cons_mem_inLine (h : ks ∈ stream) : newline :: ks ∈ inLine :=
  append_mem (u := [newline]) newline_mul_stream_le (mem_one newline) h

theorem code_append_mem_inLine {cs : List TokenKind} (hcs : ∀ k ∈ cs, k.isCode = true)
    (h : ks ∈ inLine) : cs ++ ks ∈ inLine := by
  induction cs with
  | nil => exact h
  | cons k cs ih =>
    rw [List.forall_mem_cons] at hcs
    exact cons_mem_inLine (Or.inl (mem_code hcs.1)) (ih hcs.2)

theorem begin_append_mem_stream {ms cs : List TokenKind} (hms : ms ∈ marks) (hne : cs ≠ [])
    (hcs : ∀ k ∈ cs, k.isCode = true) (h : ks ∈ inLine) : ms ++ cs ++ ks ∈ stream := by
  obtain ⟨k, cs, rfl⟩ := List.exists_cons_of_ne_nil hne
  rw [List.forall_mem_cons] at hcs
  have hbegin : ms ++ [k] ∈ marks * code := Language.append_mem_mul hms (mem_code hcs.1)
  have hrest : cs ++ ks ∈ inLine := code_append_mem_inLine hcs.2 h
  have hsplit : ms ++ k :: cs ++ ks = ms ++ [k] ++ (cs ++ ks) := by simp
  rw [hsplit]
  exact append_mem begin_mul_inLine_le hbegin hrest

theorem end_mem_stream (n : Nat) : List.replicate n dedent ++ [endMarker] ∈ stream :=
  append_mem end_le_stream (replicate_dedent_mem n) (mem_one endMarker)

/-! ### Marks of blocks -/

/-- The marks of blocks close the blocks that they open and so many others, and nowhere more. -/
def Closes (n : Nat) (ks : List TokenKind) : Prop :=
  (∀ front, front <+: ks → front.count dedent ≤ n + front.count indent) ∧
    ks.count dedent = n + ks.count indent

theorem closes_nil : Closes 0 [] := by
  refine ⟨?_, rfl⟩
  intro front hfront
  rw [List.prefix_nil.1 hfront]
  exact Nat.le_refl 0

namespace Closes

theorem cons (h : Closes n ks) (hindent : k ≠ indent) (hdedent : k ≠ dedent) : Closes n (k :: ks) := by
  refine ⟨?_, ?_⟩
  · intro front hfront
    rcases List.prefix_cons_iff.1 hfront with rfl | ⟨rest, rfl, hrest⟩
    · simp
    · simpa [List.count_cons, hindent, hdedent] using h.1 rest hrest
  · simpa [List.count_cons, hindent, hdedent] using h.2

theorem cons_indent (h : Closes (n + 1) ks) : Closes n (indent :: ks) := by
  refine ⟨?_, ?_⟩
  · intro front hfront
    rcases List.prefix_cons_iff.1 hfront with rfl | ⟨rest, rfl, hrest⟩
    · simp
    · have hle := h.1 rest hrest
      simp
      omega
  · have heq := h.2
    simp
    omega

theorem cons_dedent (h : Closes n ks) : Closes (n + 1) (dedent :: ks) := by
  refine ⟨?_, ?_⟩
  · intro front hfront
    rcases List.prefix_cons_iff.1 hfront with rfl | ⟨rest, rfl, hrest⟩
    · simp
    · have hle := h.1 rest hrest
      simp
      omega
  · have heq := h.2
    simp
    omega

theorem replicate_dedent (h : Closes n ks) (m : Nat) :
    Closes (n + m) (List.replicate m dedent ++ ks) := by
  induction m with
  | zero => exact h
  | succ m ih => exact ih.cons_dedent

theorem append_code {cs : List TokenKind} (h : Closes n ks) (hcs : ∀ k ∈ cs, k.isCode = true) :
    Closes n (cs ++ ks) := by
  induction cs with
  | nil => exact h
  | cons k cs ih =>
    rw [List.forall_mem_cons] at hcs
    refine (ih hcs.2).cons ?_ ?_
    · rintro rfl
      cases hcs.1
    · rintro rfl
      cases hcs.1

end Closes

end Grammar

/-! ### Rules -/

namespace Layout

open Grammar

variable {lines : List Text} {s : Layout} {l : Lexeme} {ls : List Lexeme} {tokens marks : List RawToken}
  {indents : List Nat} {n : Nat}

theorem isCode_of_mem_kinds {place : Position} {k : TokenKind}
    (h : k ∈ kinds (codeTokens lines place l)) : k.isCode = true := by
  obtain ⟨a, ha, rfl⟩ := List.mem_map.1 h
  exact isCode_of_mem_codeTokens ha

theorem kinds_codeTokens_ne_nil (hl : l.isCode = true) (hne : l.text ≠ []) (place : Position) :
    kinds (codeTokens lines place l) ≠ [] := by
  obtain ⟨a, rest, heq, -⟩ := exists_codeTokens_eq_cons hl hne lines place
  rw [heq]
  exact List.cons_ne_nil _ _

theorem kinds_marks_mem (hs : Nested s.indents) (h : indentTo lines s = .ok (marks, indents)) :
    kinds marks ∈ Grammar.marks := by
  rcases kinds_marks hs h with ⟨hkinds, -⟩ | ⟨m, hkinds, -⟩
  · exact Or.inl hkinds
  · rw [hkinds]
    exact Or.inr (replicate_dedent_mem m)

/-- **By each rule of reading, the tokens that follow are in the language of the state.** Before the first
coding token of a logical line this is the language of whole texts, and after it the one of what comes
within a logical line. -/
theorem Reads.mem_stream (h : Reads lines s ls tokens) (hs : Nested s.indents) :
    kinds tokens ∈ if s.hasCode then inLine else stream := by
  induction h with
  | finish s =>
    rw [kinds_finish]
    split_ifs
    · exact newline_cons_mem_inLine (end_mem_stream _)
    · exact end_mem_stream _
  | gap _ _ ih => exact ih hs
  | comment _ _ ih => exact cons_mem_of_mem_extra comment_mem_extra (ih hs)
  | newline _ _ hcode _ ih =>
    rw [if_pos hcode]
    exact newline_cons_mem_inLine (ih hs)
  | nl _ _ _ ih => exact cons_mem_of_mem_extra nl_mem_extra (ih hs)
  | opens hl hne hcode hmarks _ ih =>
    have hnested : Nested _ := hs.of_indentTo hmarks
    rw [hcode, kinds_append, kinds_append]
    exact begin_append_mem_stream (kinds_marks_mem hs hmarks) (kinds_codeTokens_ne_nil hl hne _)
      (fun _ => isCode_of_mem_kinds) (ih hnested)
  | code _ _ hcode _ ih =>
    rw [hcode, kinds_append]
    exact code_append_mem_inLine (fun _ => isCode_of_mem_kinds) (ih hs)

/-- The marks of blocks before a logical line account for the blocks that it opens and closes. -/
theorem closes_marks {ks : List TokenKind} (hs : Nested s.indents)
    (h : indentTo lines s = .ok (marks, indents)) (hn : n + 1 = s.indents.length)
    (hks : ∀ m, m + 1 = indents.length → Closes m ks) : Closes n (kinds marks ++ ks) := by
  rcases kinds_marks hs h with ⟨hkinds, hlength⟩ | ⟨m, hkinds, hlength⟩
  · rw [hkinds]
    exact (hks (n + 1) (by omega)).cons_indent
  · have hnested : Nested indents := hs.of_indentTo h
    have hpos : 0 < indents.length := List.length_pos_iff.2 hnested.ne_nil
    obtain ⟨inner, hinner⟩ := Nat.exists_eq_add_of_le' hpos
    obtain rfl : n = inner + m := by omega
    rw [hkinds]
    exact (hks inner hinner.symm).replicate_dedent m

/-- **By each rule of reading, the marks of blocks that follow close the open blocks.** -/
theorem Reads.closes (h : Reads lines s ls tokens) (hs : Nested s.indents)
    (hn : n + 1 = s.indents.length) : Closes n (kinds tokens) := by
  induction h generalizing n with
  | finish s =>
    have hend : Closes (0 + n) (List.replicate n .dedent ++ [.endMarker]) :=
      (closes_nil.cons (k := .endMarker) nofun nofun).replicate_dedent n
    rw [Nat.zero_add] at hend
    rw [kinds_finish, ← hn, Nat.add_sub_cancel]
    split_ifs
    · exact hend.cons nofun nofun
    · exact hend
  | gap _ _ ih => exact ih hs hn
  | comment _ _ ih => exact (ih hs hn).cons nofun nofun
  | newline _ _ _ _ ih => exact (ih hs hn).cons nofun nofun
  | nl _ _ _ ih => exact (ih hs hn).cons nofun nofun
  | opens _ _ _ hmarks _ ih =>
    have hnested : Nested _ := hs.of_indentTo hmarks
    rw [kinds_append, kinds_append, List.append_assoc]
    refine closes_marks hs hmarks hn ?_
    intro m hm
    exact (ih hnested hm).append_code fun _ => isCode_of_mem_kinds
  | code _ _ _ _ ih =>
    rw [kinds_append]
    exact (ih hs hn).append_code fun _ => isCode_of_mem_kinds

/-- Tokens end with the one token that marks the end of a text, at a place. -/
def EndsAt (place : Position) (tokens : List RawToken) : Prop :=
  ∃ front last, tokens = front ++ [last] ∧ .endMarker ∉ kinds front ∧ last.kind = .endMarker ∧
    last.text = [] ∧ last.start = place ∧ last.stop = place

theorem EndsAt.append {place : Position} {ts : List RawToken} (h : EndsAt place tokens)
    (hts : .endMarker ∉ kinds ts) : EndsAt place (ts ++ tokens) := by
  obtain ⟨front, last, rfl, hfront, hlast⟩ := h
  refine ⟨ts ++ front, last, (List.append_assoc _ _ _).symm, ?_, hlast⟩
  rw [kinds_append, List.mem_append, not_or]
  exact ⟨hts, hfront⟩

theorem EndsAt.cons {place : Position} {a : RawToken} (h : EndsAt place tokens)
    (ha : a.kind ≠ .endMarker) : EndsAt place (a :: tokens) := by
  have hnot : .endMarker ∉ kinds [a] := by
    intro hmem
    exact ha (List.mem_singleton.1 hmem).symm
  exact h.append hnot

theorem endsAt_finish (lines : List Text) (s : Layout) : EndsAt s.place (finish lines s) := by
  refine ⟨_, _, rfl, ?_, rfl, rfl, rfl, rfl⟩
  split_ifs <;> simp [kinds, tokenAt]

/-- **By each rule of reading, the tokens that follow end at the end of the lexemes.** -/
theorem Reads.endsAt (h : Reads lines s ls tokens) (hs : Nested s.indents) :
    EndsAt (s.place.advance (ls.map Lexeme.text).flatten) tokens := by
  induction h with
  | finish s => exact endsAt_finish lines s
  | gap _ _ ih =>
    rw [List.map_cons, List.flatten_cons, Position.advance_append]
    exact ih hs
  | comment _ _ ih =>
    rw [List.map_cons, List.flatten_cons, Position.advance_append]
    exact (ih hs).cons nofun
  | newline _ _ _ _ ih =>
    rw [List.map_cons, List.flatten_cons, Position.advance_append]
    exact (ih hs).cons nofun
  | nl _ _ _ ih =>
    rw [List.map_cons, List.flatten_cons, Position.advance_append]
    exact (ih hs).cons nofun
  | opens _ _ _ hmarks _ ih =>
    have hnested : Nested _ := hs.of_indentTo hmarks
    rw [List.map_cons, List.flatten_cons, Position.advance_append, List.append_assoc]
    exact ((ih hnested).append (List.count_eq_zero.1 (count_codeTokens rfl _ _ _))).append
      (List.count_eq_zero.1 (count_marks rfl hmarks))
  | code _ _ _ _ ih =>
    rw [List.map_cons, List.flatten_cons, Position.advance_append]
    exact (ih hs).append (List.count_eq_zero.1 (count_codeTokens rfl _ _ _))

end Layout

/-- **The tokens of a text form a word of the grammar.** There is a `NEWLINE` for each of its logical lines
with code, the marks of blocks are balanced and nowhere close more blocks than have been opened, and the
one token that marks the end of the text is the last one and stands there. -/
theorem tokens_in_grammar {t : Text} {raw : List RawToken} (h : tokenize t = .ok raw) :
    Layout.kinds raw ∈ Grammar.stream ∧
      (Layout.kinds raw).count .newline = t.openings.length ∧
      (∀ front, front <+: Layout.kinds raw → front.count .dedent ≤ front.count .indent) ∧
      (Layout.kinds raw).count .dedent = (Layout.kinds raw).count .indent ∧
      ∃ front last, raw = front ++ [last] ∧ .endMarker ∉ Layout.kinds front ∧
        last.kind = .endMarker ∧ last.text = [] ∧ last.start = Position.start.advance t ∧
        last.stop = Position.start.advance t := by
  have hreads := reads_of_tokenize h
  have hword : Layout.kinds raw ∈ Grammar.stream := hreads.mem_stream Layout.nested_zero
  obtain ⟨hfronts, htotal⟩ : Grammar.Closes 0 (Layout.kinds raw) :=
    hreads.closes Layout.nested_zero rfl
  have hend := hreads.endsAt Layout.nested_zero
  rw [flatten_lexemes] at hend
  simp only [Nat.zero_add] at hfronts htotal
  exact ⟨hword, count_newline_of_tokenize h, hfronts, htotal, hend⟩

/-- A block of one line after a comment, with a bracket that does not close. -/
def openBracketText : Text := "# c\nif x:\n  f(x\n\n    # d\n".toList

/-- The tokens of `openBracketText`. -/
def openBracketTokens : List RawToken :=
  let first := "# c\n".toList
  let second := "if x:\n".toList
  let third := "  f(x\n".toList
  let fifth := "    # d\n".toList
  [⟨.comment, "# c".toList, ⟨1, 0⟩, ⟨1, 3⟩, first⟩,
    ⟨.nl, "\n".toList, ⟨1, 3⟩, ⟨2, 0⟩, first⟩,
    ⟨.name, "if".toList, ⟨2, 0⟩, ⟨2, 2⟩, second⟩,
    ⟨.name, "x".toList, ⟨2, 3⟩, ⟨2, 4⟩, second⟩,
    ⟨.op, ":".toList, ⟨2, 4⟩, ⟨2, 5⟩, second⟩,
    ⟨.newline, "\n".toList, ⟨2, 5⟩, ⟨3, 0⟩, second⟩,
    ⟨.indent, "  ".toList, ⟨3, 0⟩, ⟨3, 2⟩, third⟩,
    ⟨.name, "f".toList, ⟨3, 2⟩, ⟨3, 3⟩, third⟩,
    ⟨.op, "(".toList, ⟨3, 3⟩, ⟨3, 4⟩, third⟩,
    ⟨.name, "x".toList, ⟨3, 4⟩, ⟨3, 5⟩, third⟩,
    ⟨.nl, "\n".toList, ⟨3, 5⟩, ⟨4, 0⟩, third⟩,
    ⟨.nl, "\n".toList, ⟨4, 0⟩, ⟨5, 0⟩, "\n".toList⟩,
    ⟨.comment, "# d".toList, ⟨5, 4⟩, ⟨5, 7⟩, fifth⟩,
    ⟨.nl, "\n".toList, ⟨5, 7⟩, ⟨6, 0⟩, fifth⟩,
    ⟨.newline, [], ⟨6, 0⟩, ⟨6, 0⟩, []⟩,
    ⟨.dedent, [], ⟨6, 0⟩, ⟨6, 0⟩, []⟩,
    ⟨.endMarker, [], ⟨6, 0⟩, ⟨6, 0⟩, []⟩]

theorem tokens_in_grammar_openBracketText :
    tokenize openBracketText = .ok openBracketTokens ∧
      Layout.kinds openBracketTokens ∈ Grammar.stream ∧
      (Layout.kinds openBracketTokens).count .newline = openBracketText.openings.length := by
  have h : tokenize openBracketText = .ok openBracketTokens := by decide +kernel
  obtain ⟨hword, hlines, -⟩ := tokens_in_grammar h
  exact ⟨h, hword, hlines⟩

end SourceSpans
