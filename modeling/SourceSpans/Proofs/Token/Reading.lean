import SourceSpans.Proofs.Token.Order

/-!
# The rules of reading a text

Reading the lexemes of a text follows seven rules (`Layout.Reads`): one for each kind of lexeme, where a
line break may end a logical line or not and a coding lexeme may open one or not, and one for the end of
the text. Whatever is proved of a text that can be read is proved along these rules
(`Layout.reads_of_readAll`); what a function does within one lexeme is stated here and nowhere else.

A coding lexeme that opens a logical line settles the open blocks: a column on the right of the innermost
block opens a block, another column closes the blocks on the right of it (`Layout.settle`), and it has to
be the column of a block then (`Layout.indentTo_eq_error_iff`). The layout tokens before it count the
blocks that are opened or closed (`Layout.indentTo_eq_ok`).
-/

namespace SourceSpans

/-- Whether tokens of a kind make up logical lines: they are neither layout nor the end of a text. -/
def TokenKind.isCode : TokenKind → Bool
  | .name | .number | .string | .op | .errorToken => true
  | _ => false

/-- Whether tokens of a kind mark the beginning or the end of a block. -/
def TokenKind.isBlockMark : TokenKind → Bool
  | .indent | .dedent => true
  | _ => false

theorem TokenKind.isCode_of_isBlockMark {k : TokenKind} (h : k.isBlockMark = true) :
    k.isCode = false := by
  cases k <;> first | rfl | cases h

theorem TokenKind.isBlockMark_of_isCode {k : TokenKind} (h : k.isCode = true) :
    k.isBlockMark = false := by
  rw [← Bool.not_eq_true]
  intro hmark
  rw [isCode_of_isBlockMark hmark] at h
  cases h

theorem TokenKind.ne_newline_of_isCode {k : TokenKind} (h : k.isCode = true) : k ≠ .newline := by
  rintro rfl
  cases h

namespace Lexeme

/-- Whether a lexeme makes coding tokens. -/
def isCode (l : Lexeme) : Bool :=
  match l.cls with
  | .gap | .comment | .lineBreak => false
  | _ => true

/-- The number of open brackets after a lexeme. -/
def depthAfter (depth : Nat) (l : Lexeme) : Nat :=
  match l.cls with
  | .operator => Layout.depthAfter depth .op l.text
  | _ => depth

end Lexeme

namespace Layout

/-! ### Open blocks -/

/-- The columns of the open blocks, innermost first, after a logical line that begins at a column: the
column is put on top if it exceeds the top, otherwise what exceeds it is taken off. -/
def settle (blocks : List Nat) (col : Nat) : List Nat :=
  if blocks.headD 0 < col then col :: blocks else blocks.dropWhile (col < ·)

/-- Blocks lie within each other, and all of them in the block of the whole text. -/
structure Nested (blocks : List Nat) : Prop where
  decreasing : blocks.Pairwise (· > ·)
  bottom : blocks.getLast? = some 0

variable {blocks : List Nat} {col : Nat}

theorem nested_zero : Nested [0] := ⟨List.pairwise_singleton _ _, rfl⟩

theorem Nested.ne_nil (h : Nested blocks) : blocks ≠ [] := by
  rintro rfl
  cases h.bottom

theorem Nested.settle (h : Nested blocks) (col : Nat) : Nested (settle blocks col) := by
  obtain ⟨top, rest, rfl⟩ := List.exists_cons_of_ne_nil h.ne_nil
  unfold Layout.settle
  split_ifs with hcol
  · refine ⟨List.pairwise_cons.2 ⟨fun b hb => ?_, h.decreasing⟩, h.bottom⟩
    rcases List.mem_cons.1 hb with rfl | hb
    · exact hcol
    · exact Nat.lt_trans ((List.pairwise_cons.1 h.decreasing).1 b hb) hcol
  · -- the block of the whole text is not taken off
    have hkept : (top :: rest).dropWhile (col < ·) ≠ [] := by
      rw [ne_eq, List.dropWhile_eq_nil_iff]
      intro hall
      have hzero := hall 0 (List.mem_of_getLast? h.bottom)
      simp at hzero
    refine ⟨h.decreasing.sublist (List.dropWhile_sublist _), ?_⟩
    have hlast := (List.dropWhile_suffix (l := top :: rest) (col < ·)).getLast hkept
    rw [List.getLast?_eq_some_getLast hkept, hlast, ← List.getLast?_eq_some_getLast]
    exact h.bottom

variable {lines : List Text} {s : Layout} {marks : List RawToken} {indents : List Nat}
  {e : TokenizeError}

/-- A logical line that begins on the right of the innermost block opens a block. -/
theorem indentTo_of_lt (h : s.indents.headD 0 < s.place.col) :
    indentTo lines s = .ok ([indentToken lines s.place], settle s.indents s.place.col) := by
  rw [indentTo, column, if_pos h, settle, if_pos h]

/-- Another logical line closes the blocks on the right of it, and begins at the column of a block. -/
theorem indentTo_of_not_lt (hs : Nested s.indents) (h : ¬ s.indents.headD 0 < s.place.col) :
    indentTo lines s =
      if (settle s.indents s.place.col).head? = some s.place.col then
        .ok (List.replicate (s.indents.takeWhile (s.place.col < ·)).length
          (tokenAt lines .dedent s.place []), settle s.indents s.place.col)
      else .error (.dedent s.place.line) := by
  have hsettle : settle s.indents s.place.col = s.indents.dropWhile (s.place.col < ·) := if_neg h
  obtain ⟨top, rest, hkept⟩ := List.exists_cons_of_ne_nil (hs.settle s.place.col).ne_nil
  have hfits : s.place.col = (settle s.indents s.place.col).headD 0 ↔
      (settle s.indents s.place.col).head? = some s.place.col := by
    rw [hkept, List.headD_cons, List.head?_cons, Option.some.injEq, eq_comm]
  rw [indentTo, column, if_neg h, ← hsettle, ← List.map_const']
  exact if_congr hfits rfl rfl

/-- A logical line is refused if it begins at the column of no block. -/
theorem indentTo_eq_error_iff (hs : Nested s.indents) :
    indentTo lines s = .error e ↔
      (settle s.indents s.place.col).head? ≠ some s.place.col ∧ e = .dedent s.place.line := by
  by_cases hcol : s.indents.headD 0 < s.place.col
  · have hsettle : (settle s.indents s.place.col).head? = some s.place.col := by
      rw [settle, if_pos hcol, List.head?_cons]
    rw [indentTo_of_lt hcol]
    exact iff_of_false nofun fun h => h.1 hsettle
  · rw [indentTo_of_not_lt hs hcol]
    split_ifs with hfits
    · exact iff_of_false nofun fun h => h.1 hfits
    · rw [Except.error.injEq, eq_comm]
      exact ⟨fun he => ⟨hfits, he⟩, fun h => h.2⟩

/-- The layout tokens before a logical line count the blocks that it opens or closes, and it begins at
the column of the innermost block then. -/
theorem indentTo_eq_ok (hs : Nested s.indents) (h : indentTo lines s = .ok (marks, indents)) :
    indents = settle s.indents s.place.col ∧ indents.head? = some s.place.col ∧
      (marks = [indentToken lines s.place] ∧ indents.length = s.indents.length + 1 ∨
        ∃ n, marks = List.replicate n (tokenAt lines .dedent s.place []) ∧
          indents.length + n = s.indents.length) := by
  by_cases hcol : s.indents.headD 0 < s.place.col
  · rw [indentTo_of_lt hcol] at h
    obtain ⟨rfl, rfl⟩ := Prod.mk.inj (Except.ok.inj h)
    rw [settle, if_pos hcol]
    exact ⟨rfl, rfl, Or.inl ⟨rfl, rfl⟩⟩
  · rw [indentTo_of_not_lt hs hcol] at h
    split_ifs at h with hfits
    obtain ⟨rfl, rfl⟩ := Prod.mk.inj (Except.ok.inj h)
    refine ⟨rfl, hfits, Or.inr ⟨_, rfl, ?_⟩⟩
    rw [settle, if_neg hcol, Nat.add_comm, ← List.length_append, List.takeWhile_append_dropWhile]

/-- What a logical line leaves open lies within each other as well. -/
theorem Nested.of_indentTo (hs : Nested s.indents) (h : indentTo lines s = .ok (marks, indents)) :
    Nested indents := (indentTo_eq_ok hs h).1 ▸ hs.settle s.place.col

/-! ### Coding tokens -/

/-- The tokens of characters that are no token together. -/
def errorTokens (lines : List Text) : Position → Text → List RawToken
  | _, [] => []
  | place, c :: rest =>
      tokenAt lines .errorToken place [c] :: errorTokens lines (place.next c) rest

/-- The coding tokens of a lexeme that stands at a place. -/
def codeTokens (lines : List Text) (place : Position) (l : Lexeme) : List RawToken :=
  match l.cls with
  | .gap | .comment | .lineBreak => []
  | .name => [tokenAt lines .name place l.text]
  | .number => [tokenAt lines .number place l.text]
  | .string => [tokenAt lines .string place l.text]
  | .operator => [tokenAt lines .op place l.text]
  | .broken => errorTokens lines place l.text

variable {l : Lexeme} {place : Position}

theorem kind_of_mem_errorTokens {text : Text} {a : RawToken} (h : a ∈ errorTokens lines place text) :
    a.kind = .errorToken := by
  induction text generalizing place with
  | nil => cases h
  | cons c rest ih =>
    rcases List.mem_cons.1 h with rfl | h
    · rfl
    · exact ih h

theorem codeTokens_of_not_isCode (hl : l.isCode = false) (lines : List Text) (place : Position) :
    codeTokens lines place l = [] := by
  obtain ⟨cls, text⟩ := l
  cases cls <;> first | rfl | cases hl

/-- A coding lexeme is one token, or it is broken. -/
theorem codeTokens_cases (hl : l.isCode = true) (lines : List Text) (place : Position) :
    codeTokens lines place l = errorTokens lines place l.text ∨
      ∃ kind : TokenKind, kind.isCode = true ∧
        codeTokens lines place l = [tokenAt lines kind place l.text] := by
  obtain ⟨cls, text⟩ := l
  cases cls with
  | gap => cases hl
  | comment => cases hl
  | lineBreak => cases hl
  | broken => exact Or.inl rfl
  | name => exact Or.inr ⟨.name, rfl, rfl⟩
  | number => exact Or.inr ⟨.number, rfl, rfl⟩
  | string => exact Or.inr ⟨.string, rfl, rfl⟩
  | operator => exact Or.inr ⟨.op, rfl, rfl⟩

theorem isCode_of_mem_codeTokens {a : RawToken} (h : a ∈ codeTokens lines place l) :
    a.kind.isCode = true := by
  cases hl : l.isCode with
  | false =>
    rw [codeTokens_of_not_isCode hl] at h
    cases h
  | true =>
    rcases codeTokens_cases hl lines place with heq | ⟨kind, hkind, heq⟩ <;> rw [heq] at h
    · rw [kind_of_mem_errorTokens h]
      rfl
    · rw [List.mem_singleton.1 h]
      exact hkind

/-- The first token of a coding lexeme stands where the lexeme does. -/
theorem exists_codeTokens_eq_cons (hl : l.isCode = true) (hne : l.text ≠ []) (lines : List Text)
    (place : Position) : ∃ a rest, codeTokens lines place l = a :: rest ∧ a.start = place := by
  rcases codeTokens_cases hl lines place with heq | ⟨kind, -, heq⟩ <;> rw [heq]
  · obtain ⟨c, rest, htext⟩ := List.exists_cons_of_ne_nil hne
    rw [htext]
    exact ⟨_, _, rfl, rfl⟩
  · exact ⟨_, _, rfl, rfl⟩

/-! ### Kinds of tokens -/

/-- The kinds of tokens. -/
def kinds (tokens : List RawToken) : List TokenKind := tokens.map RawToken.kind

@[simp] theorem kinds_cons (a : RawToken) (tokens : List RawToken) :
    kinds (a :: tokens) = a.kind :: kinds tokens := rfl

@[simp] theorem kinds_append (ts ts' : List RawToken) : kinds (ts ++ ts') = kinds ts ++ kinds ts' :=
  List.map_append

/-- The layout tokens before a logical line are an `INDENT` for the block that it opens, or `DEDENT`s for
the blocks that it closes. -/
theorem kinds_marks (hs : Nested s.indents) (h : indentTo lines s = .ok (marks, indents)) :
    kinds marks = [.indent] ∧ indents.length = s.indents.length + 1 ∨
      ∃ n, kinds marks = List.replicate n .dedent ∧ indents.length + n = s.indents.length := by
  obtain ⟨-, -, ⟨rfl, hlength⟩ | ⟨n, rfl, hlength⟩⟩ := indentTo_eq_ok hs h
  · exact Or.inl ⟨rfl, hlength⟩
  · exact Or.inr ⟨n, List.map_replicate, hlength⟩

/-- They are of no other kind. -/
theorem isBlockMark_of_mem_marks (h : indentTo lines s = .ok (marks, indents)) {a : RawToken}
    (ha : a ∈ marks) : a.kind.isBlockMark = true := by
  rcases indentTo_cases h with rfl | ⟨n, rfl⟩
  · rw [List.mem_singleton.1 ha]
    rfl
  · rw [List.eq_of_mem_replicate ha]
    rfl

theorem count_marks {k : TokenKind} (hk : k.isBlockMark = false)
    (h : indentTo lines s = .ok (marks, indents)) : (kinds marks).count k = 0 := by
  refine List.count_eq_zero.2 fun hmem => ?_
  obtain ⟨a, ha, rfl⟩ := List.mem_map.1 hmem
  rw [isBlockMark_of_mem_marks h ha] at hk
  cases hk

theorem kinds_finish (lines : List Text) (s : Layout) :
    kinds (finish lines s) =
      (if s.hasCode then [.newline] else []) ++ List.replicate (s.indents.length - 1) .dedent
        ++ [.endMarker] := by
  rw [finish, kinds_append, kinds_append, kinds, kinds, List.map_replicate]
  split_ifs <;> rfl

/-- Coding tokens are of no other kind. -/
theorem count_codeTokens {k : TokenKind} (hk : k.isCode = false) (lines : List Text)
    (place : Position) (l : Lexeme) : (kinds (codeTokens lines place l)).count k = 0 := by
  refine List.count_eq_zero.2 fun hmem => ?_
  obtain ⟨a, ha, rfl⟩ := List.mem_map.1 hmem
  rw [isCode_of_mem_codeTokens ha] at hk
  cases hk

/-! ### Reading one lexeme -/

/-- The layout after a text that is no token or one that changes the place only. -/
def pass (s : Layout) (text : Text) : Layout := { s with place := s.place.advance text }

/-- The layout after the line break that ends a logical line. -/
def endLine (s : Layout) (text : Text) : Layout :=
  { s with place := s.place.advance text, atLineStart := true, hasCode := false }

/-- The layout after a coding lexeme before which the given blocks are open. -/
def afterCode (s : Layout) (indents : List Nat) (l : Lexeme) : Layout where
  place := s.place.advance l.text
  indents := indents
  depth := l.depthAfter s.depth
  atLineStart := false
  hasCode := true

/-- The layout tokens before a coding lexeme, and the blocks that are open then. -/
def marksBefore (lines : List Text) (s : Layout) : Except TokenizeError (List RawToken × List Nat) :=
  if s.atLineStart then indentTo lines s else .ok ([], s.indents)

theorem broken_of_hasCode {text : Text} (hstart : s.atLineStart = false) (hcode : s.hasCode = true) :
    broken lines text s = .ok (errorTokens lines s.place text, s.pass text) := by
  induction text generalizing s with
  | nil => rfl
  | cons c rest ih =>
    rw [broken_cons, code_eq, if_neg (by rw [hstart]; exact Bool.false_ne_true)]
    show (broken lines rest _).bind _ = _
    rw [ih rfl rfl, pass, ← hstart, ← hcode]
    rfl

/-- A coding lexeme is read after the layout tokens before it, as coding tokens. -/
theorem read_of_isCode (hl : l.isCode = true) (hne : l.text ≠ []) (lines : List Text) (s : Layout) :
    read lines l s = (marksBefore lines s).bind fun r =>
      .ok (r.1 ++ codeTokens lines s.place l, s.afterCode r.2 l) := by
  obtain ⟨cls, text⟩ := l
  cases cls with
  | gap => cases hl
  | comment => cases hl
  | lineBreak => cases hl
  | broken =>
    obtain ⟨c, rest, rfl⟩ := List.exists_cons_of_ne_nil hne
    show broken lines (c :: rest) s = _
    rw [broken_cons, code_eq, ← marksBefore]
    rcases marksBefore lines s with e | ⟨marks, indents⟩
    · rfl
    · show (broken lines rest _).bind _ = _
      rw [broken_of_hasCode rfl rfl]
      show Except.ok (marks ++ [_] ++ _, _) = _
      rw [List.append_assoc]
      rfl
  | name => exact code_eq lines .name text s
  | number => exact code_eq lines .number text s
  | string => exact code_eq lines .string text s
  | operator => exact code_eq lines .op text s

/-- What is so before each lexeme: the next coding lexeme opens a logical line if the current one holds
no code, and brackets are open only where it does. -/
structure Coherent (s : Layout) : Prop where
  atLineStart_eq : s.atLineStart = !s.hasCode
  hasCode_of_depth : s.depth ≠ 0 → s.hasCode = true
  nested : Nested s.indents

theorem coherent_initial : Coherent initial := ⟨rfl, fun h => absurd rfl h, nested_zero⟩

namespace Coherent

variable {text : Text}

theorem pass (h : Coherent s) (text : Text) : Coherent (s.pass text) := ⟨h.1, h.2, h.3⟩

theorem endLine (h : Coherent s) (hdepth : s.depth = 0) (text : Text) :
    Coherent (s.endLine text) := ⟨rfl, fun hne => absurd hdepth hne, h.nested⟩

theorem afterCode (h : Nested indents) (s : Layout) (l : Lexeme) : Coherent (s.afterCode indents l) :=
  ⟨rfl, fun _ => rfl, h⟩

theorem marksBefore_of_hasCode (h : Coherent s) (hcode : s.hasCode = true) :
    marksBefore lines s = .ok ([], s.indents) := by
  rw [marksBefore, h.atLineStart_eq, hcode]
  rfl

theorem marksBefore_of_not_hasCode (h : Coherent s) (hcode : s.hasCode = false) :
    marksBefore lines s = indentTo lines s := by
  rw [marksBefore, h.atLineStart_eq, hcode]
  rfl

/-- A line break outside brackets ends the logical line if there is one. -/
theorem lineBreak_of_ends (hdepth : s.depth = 0) (hcode : s.hasCode = true) (lines : List Text)
    (text : Text) :
    lineBreak lines text s = (tokenAt lines .newline s.place text, s.endLine text) := by
  simp only [lineBreak, hdepth, hcode, Layout.endLine]
  rfl

/-- Another line break only breaks the line. -/
theorem lineBreak_of_not_ends (h : Coherent s) (hends : s.depth = 0 → s.hasCode = false)
    (lines : List Text) (text : Text) :
    lineBreak lines text s = (tokenAt lines .nl s.place text, s.pass text) := by
  by_cases hdepth : s.depth = 0
  · have hcode := hends hdepth
    have hstart : s.atLineStart = true := by
      rw [h.atLineStart_eq, hcode]
      rfl
    simp only [lineBreak, hdepth, hcode, Layout.pass, hstart]
    rfl
  · simp only [lineBreak, hdepth, false_and, if_false, Layout.pass]
    rfl

end Coherent

/-! ### The rules -/

/-- Lexemes are read as tokens. -/
inductive Reads (lines : List Text) : Layout → List Lexeme → List RawToken → Prop
  /-- At the end of the text the logical line and all blocks end. -/
  | finish (s : Layout) : Reads lines s [] (finish lines s)
  /-- A gap is no token. -/
  | gap {s : Layout} {l : Lexeme} {ls : List Lexeme} {tokens : List RawToken} (hcls : l.cls = .gap)
      (h : Reads lines (s.pass l.text) ls tokens) : Reads lines s (l :: ls) tokens
  | comment {s : Layout} {l : Lexeme} {ls : List Lexeme} {tokens : List RawToken}
      (hcls : l.cls = .comment) (h : Reads lines (s.pass l.text) ls tokens) :
      Reads lines s (l :: ls) (tokenAt lines .comment s.place l.text :: tokens)
  /-- A line break outside brackets ends a logical line that holds code. -/
  | newline {s : Layout} {l : Lexeme} {ls : List Lexeme} {tokens : List RawToken}
      (hcls : l.cls = .lineBreak) (hdepth : s.depth = 0) (hcode : s.hasCode = true)
      (h : Reads lines (s.endLine l.text) ls tokens) :
      Reads lines s (l :: ls) (tokenAt lines .newline s.place l.text :: tokens)
  /-- Another line break does not. -/
  | nl {s : Layout} {l : Lexeme} {ls : List Lexeme} {tokens : List RawToken}
      (hcls : l.cls = .lineBreak) (hends : s.depth = 0 → s.hasCode = false)
      (h : Reads lines (s.pass l.text) ls tokens) :
      Reads lines s (l :: ls) (tokenAt lines .nl s.place l.text :: tokens)
  /-- The first coding lexeme of a logical line settles the open blocks. -/
  | opens {s : Layout} {l : Lexeme} {ls : List Lexeme} {marks tokens : List RawToken}
      {indents : List Nat} (hl : l.isCode = true) (hne : l.text ≠ []) (hcode : s.hasCode = false)
      (hmarks : indentTo lines s = .ok (marks, indents))
      (h : Reads lines (s.afterCode indents l) ls tokens) :
      Reads lines s (l :: ls) (marks ++ codeTokens lines s.place l ++ tokens)
  /-- Another coding lexeme goes on with the logical line. -/
  | code {s : Layout} {l : Lexeme} {ls : List Lexeme} {tokens : List RawToken}
      (hl : l.isCode = true) (hne : l.text ≠ []) (hcode : s.hasCode = true)
      (h : Reads lines (s.afterCode s.indents l) ls tokens) :
      Reads lines s (l :: ls) (codeTokens lines s.place l ++ tokens)

variable {ls : List Lexeme} {tokens : List RawToken}

theorem cls_cases (l : Lexeme) : l.cls = .gap ∨ l.cls = .comment ∨ l.cls = .lineBreak ∨ l.isCode = true := by
  obtain ⟨cls, text⟩ := l
  cases cls <;> simp [Lexeme.isCode]

/-- **Reading follows the rules.** -/
theorem reads_of_readAll (hs : Coherent s) (hls : ∀ l ∈ ls, l.text ≠ [])
    (h : readAll lines ls s = .ok tokens) : Reads lines s ls tokens := by
  induction ls generalizing s tokens with
  | nil =>
    obtain rfl := Except.ok.inj h
    exact .finish s
  | cons l ls ih =>
    rw [List.forall_mem_cons] at hls
    rw [readAll_cons] at h
    obtain ⟨⟨first, s'⟩, hread, h⟩ := bind_eq_ok h
    obtain ⟨others, hrest, h⟩ := bind_eq_ok h
    obtain rfl := Except.ok.inj h
    rcases cls_cases l with hcls | hcls | hcls | hl
    · simp only [read, hcls] at hread
      obtain ⟨rfl, rfl⟩ := Prod.mk.inj (Except.ok.inj hread)
      exact .gap hcls (ih (hs.pass l.text) hls.2 hrest)
    · simp only [read, hcls] at hread
      obtain ⟨rfl, rfl⟩ := Prod.mk.inj (Except.ok.inj hread)
      exact .comment hcls (ih (hs.pass l.text) hls.2 hrest)
    · simp only [read, hcls] at hread
      obtain ⟨rfl, rfl⟩ := Prod.mk.inj (Except.ok.inj hread)
      by_cases hends : s.depth = 0 → s.hasCode = false
      · rw [hs.lineBreak_of_not_ends hends] at hrest ⊢
        exact .nl hcls hends (ih (hs.pass l.text) hls.2 hrest)
      · rw [Classical.not_imp, Bool.not_eq_false] at hends
        rw [Coherent.lineBreak_of_ends hends.1 hends.2] at hrest ⊢
        exact .newline hcls hends.1 hends.2 (ih (hs.endLine hends.1 l.text) hls.2 hrest)
    · rw [read_of_isCode hl hls.1] at hread
      obtain ⟨⟨marks, indents⟩, hmarks, hread⟩ := bind_eq_ok hread
      obtain ⟨rfl, rfl⟩ := Prod.mk.inj (Except.ok.inj hread)
      cases hcode : s.hasCode with
      | false =>
        rw [hs.marksBefore_of_not_hasCode hcode] at hmarks
        have hnested : Nested indents := hs.nested.of_indentTo hmarks
        exact .opens hl hls.1 hcode hmarks (ih (.afterCode hnested s l) hls.2 hrest)
      | true =>
        rw [hs.marksBefore_of_hasCode hcode] at hmarks
        obtain ⟨rfl, rfl⟩ := Prod.mk.inj (Except.ok.inj hmarks)
        exact .code hl hls.1 hcode (ih (.afterCode hs.nested s l) hls.2 hrest)

end Layout

theorem text_ne_nil_of_mem_lexemes {t : Text} {l : Lexeme} (h : l ∈ lexemes t) : l.text ≠ [] := by
  obtain ⟨part, hpart, rfl⟩ := exists_of_mem_lexemes h
  exact Lexeme.text_first_ne_nil hpart

/-- The lexemes of a text are read as its tokens. -/
theorem reads_of_tokenize {t : Text} {raw : List RawToken} (h : tokenize t = .ok raw) :
    Layout.Reads t.lines Layout.initial (lexemes t) raw :=
  Layout.reads_of_readAll Layout.coherent_initial (fun _ => text_ne_nil_of_mem_lexemes) h

end SourceSpans
