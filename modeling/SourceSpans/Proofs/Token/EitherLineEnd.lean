import Mathlib.Data.List.Forall2
import SourceSpans.Proofs.Source.Offsets
import SourceSpans.Proofs.Token.LineEnds

/-!
# The same tokens for either line end

Putting a carriage return before each line feed of a text does not change its tokens but for the line
ends in them (`SameTokens`), with one exception (`sameTokens_crlf`).

* **Lexemes** (`Layout.read_crlf`): reading a lexeme with carriage returns in it makes the same tokens,
  in the same places, and leaves the same layout behind. The white space before a line needs a reason:
  it is looked up in the line, and stands before its end.
* **Texts** (`tokenize_crlf`): so the tokens of the same lexemes are the same.
* **The exception** (`not_sameTokens_of_continued`): a string in a single quote that continues on the
  next line after a backslash is a token before a line feed, and no token before a carriage return.
-/

namespace SourceSpans

/-- The token with a carriage return before each line feed. -/
def RawToken.crlf (a : RawToken) : RawToken :=
  { a with text := Text.crlf a.text, line := Text.crlf a.line }

namespace Layout

variable {t u v : Text} {lines : List Text} {s s' : Layout} {tokens : List RawToken} {l : Lexeme}
  {ls : List Lexeme} {kind : TokenKind} {text : Text}

/-- The tokens with carriage returns put in, and the same layout after them. -/
def crlfResult (r : List RawToken × Layout) : List RawToken × Layout := (r.1.map RawToken.crlf, r.2)

/-! ### Reading a lexeme -/

theorem tokenAt_crlf (t : Text) (kind : TokenKind) (place : Position) (text : Text) :
    tokenAt (Text.crlf t).lines kind place (Text.crlf text) =
      (tokenAt t.lines kind place text).crlf := by
  simp only [tokenAt, RawToken.crlf, Text.advance_crlf, Text.lineAt_crlf]

theorem indentToken_crlf (ht : u ++ v = t) (hu : Position.start.advance u = s.place) :
    indentToken (Text.crlf t).lines s.place = (indentToken t.lines s.place).crlf := by
  subst ht
  have htake := Text.take_lineText_crlf u v
  simp only [hu, Text.lineText, Text.lineAt_crlf] at htake
  simp only [indentToken, RawToken.crlf, htake, Text.lineAt_crlf]

theorem indentTo_crlf (ht : u ++ v = t) (hu : Position.start.advance u = s.place) :
    indentTo (Text.crlf t).lines s =
      (indentTo t.lines s).map fun r => (r.1.map RawToken.crlf, r.2) := by
  have hdedent := tokenAt_crlf t .dedent s.place []
  rw [Text.crlf_nil] at hdedent
  simp only [indentTo, indentToken_crlf ht hu, hdedent]
  split_ifs
  · rfl
  · simp [Except.map]
  · rfl

theorem depthAfter_crlf (depth : Nat) (kind : TokenKind) (text : Text) :
    depthAfter depth kind (Text.crlf text) = depthAfter depth kind text := by
  simp only [depthAfter, Text.crlf_eq_singleton_iff (show '(' ≠ '\n' by decide),
    Text.crlf_eq_singleton_iff (show '[' ≠ '\n' by decide),
    Text.crlf_eq_singleton_iff (show '\x7b' ≠ '\n' by decide),
    Text.crlf_eq_singleton_iff (show ')' ≠ '\n' by decide),
    Text.crlf_eq_singleton_iff (show ']' ≠ '\n' by decide),
    Text.crlf_eq_singleton_iff (show '\x7d' ≠ '\n' by decide)]

theorem code_crlf (ht : u ++ v = t) (hu : Position.start.advance u = s.place) (kind : TokenKind)
    (text : Text) :
    code (Text.crlf t).lines kind (Text.crlf text) s =
      (code t.lines kind text s).map crlfResult := by
  rw [code_eq, code_eq, indentTo_crlf ht hu, tokenAt_crlf, depthAfter_crlf, Text.advance_crlf]
  split_ifs
  · rcases indentTo t.lines s with e | r
    · rfl
    · simp [Except.map, Except.bind, crlfResult]
  · rfl

theorem broken_crlf (ht : u ++ text ++ v = t) (hu : Position.start.advance u = s.place)
    (htext : '\n' ∉ text) :
    broken (Text.crlf t).lines text s = (broken t.lines text s).map crlfResult := by
  induction text generalizing u s with
  | nil => rfl
  | cons c rest ih =>
    rw [List.mem_cons, not_or] at htext
    have ht₁ : u ++ (c :: rest ++ v) = t := by rw [← ht, List.append_assoc]
    have ht₂ : u ++ [c] ++ rest ++ v = t := by rw [← ht]; simp
    have hc : Text.crlf [c] = [c] := Text.crlf_cons (Ne.symm htext.1) []
    have hcode := code_crlf ht₁ hu .errorToken [c]
    rw [hc] at hcode
    rw [broken_cons, broken_cons, hcode]
    rcases hfirst : code t.lines .errorToken [c] s with e | ⟨first, s₁⟩
    · rfl
    · obtain ⟨-, -, hplace, -⟩ := code_cases hfirst
      have hu₁ : Position.start.advance (u ++ [c]) = s₁.place := by
        rw [Position.advance_append, hu, hplace]
      show (broken (Text.crlf t).lines rest s₁).bind _ = Except.map _ ((broken t.lines rest s₁).bind _)
      rw [ih ht₂ hu₁ htext.2]
      rcases broken t.lines rest s₁ with e | ⟨others, s₂⟩
      · rfl
      · simp [Except.map, Except.bind, crlfResult]

theorem lineBreak_crlf (t text : Text) (s : Layout) :
    lineBreak (Text.crlf t).lines (Text.crlf text) s =
      ((lineBreak t.lines text s).1.crlf, (lineBreak t.lines text s).2) := by
  simp only [lineBreak, tokenAt_crlf]
  rfl

/-- **What is read of a lexeme does not depend on the line ends.** -/
theorem read_crlf (ht : u ++ l.text ++ v = t) (hu : Position.start.advance u = s.place)
    (hbroken : l.cls = .broken → '\n' ∉ l.text) :
    read (Text.crlf t).lines l.crlf s = (read t.lines l s).map crlfResult := by
  obtain ⟨cls, text⟩ := l
  have ht' : u ++ (text ++ v) = t := by rw [← ht, List.append_assoc]
  cases cls with
  | gap =>
    show Except.ok ([], { s with place := s.place.advance (Text.crlf text) }) = _
    rw [Text.advance_crlf]
    rfl
  | comment =>
    show Except.ok ([tokenAt (Text.crlf t).lines .comment s.place (Text.crlf text)],
      { s with place := s.place.advance (Text.crlf text) }) = _
    rw [tokenAt_crlf, Text.advance_crlf]
    rfl
  | lineBreak =>
    show Except.ok ([(lineBreak (Text.crlf t).lines (Text.crlf text) s).1],
      (lineBreak (Text.crlf t).lines (Text.crlf text) s).2) = _
    rw [lineBreak_crlf]
    rfl
  | broken =>
    show broken (Text.crlf t).lines (Text.crlf text) s = _
    rw [Text.crlf_of_not_mem (hbroken rfl)]
    exact broken_crlf ht hu (hbroken rfl)
  | name => exact code_crlf ht' hu .name text
  | number => exact code_crlf ht' hu .number text
  | string => exact code_crlf ht' hu .string text
  | operator => exact code_crlf ht' hu .op text

/-! ### Reading lexemes -/

/-- Read lexemes that are followed by others. -/
def readThrough (lines : List Text) :
    List Lexeme → Layout → Except TokenizeError (List RawToken × Layout)
  | [], s => .ok ([], s)
  | l :: ls, s =>
      (read lines l s).bind fun r =>
        (readThrough lines ls r.2).bind fun r' => .ok (r.1 ++ r'.1, r'.2)

theorem readAll_append (lines : List Text) (ls ls' : List Lexeme) (s : Layout) :
    readAll lines (ls ++ ls') s =
      (readThrough lines ls s).bind fun r =>
        (readAll lines ls' r.2).bind fun others => .ok (r.1 ++ others) := by
  induction ls generalizing s with
  | nil =>
    show readAll lines ls' s = (readAll lines ls' s).bind fun others => .ok others
    cases readAll lines ls' s <;> rfl
  | cons l ls ih =>
    rw [List.cons_append, readAll_cons, readThrough]
    rcases read lines l s with e | ⟨first, s₁⟩
    · rfl
    · show (readAll lines (ls ++ ls') s₁).bind _ = _
      rw [ih]
      show _ = ((readThrough lines ls s₁).bind _).bind _
      rcases readThrough lines ls s₁ with e | ⟨others, s₂⟩
      · rfl
      · show ((readAll lines ls' s₂).bind _).bind _ = (readAll lines ls' s₂).bind _
        rcases readAll lines ls' s₂ with e | rest
        · rfl
        · simp [Except.bind]

theorem readThrough_crlf (ht : u ++ (ls.map Lexeme.text).flatten ++ v = t)
    (hu : Position.start.advance u = s.place) (hbroken : ∀ l ∈ ls, l.cls = .broken → '\n' ∉ l.text) :
    readThrough (Text.crlf t).lines (ls.map Lexeme.crlf) s =
      (readThrough t.lines ls s).map crlfResult := by
  induction ls generalizing u s with
  | nil => rfl
  | cons l ls ih =>
    rw [List.forall_mem_cons] at hbroken
    rw [List.map_cons, List.flatten_cons] at ht
    have ht₁ : u ++ l.text ++ ((ls.map Lexeme.text).flatten ++ v) = t := by rw [← ht]; simp
    have ht₂ : u ++ l.text ++ (ls.map Lexeme.text).flatten ++ v = t := by rw [← ht]; simp
    rw [List.map_cons, readThrough, readThrough, read_crlf ht₁ hu hbroken.1]
    rcases hread : read t.lines l s with e | ⟨first, s₁⟩
    · rfl
    · have hplace := (standsIn_of_read ht₁ hu hread).2
      show (readThrough (Text.crlf t).lines (ls.map Lexeme.crlf) s₁).bind _ =
        Except.map _ ((readThrough t.lines ls s₁).bind _)
      rw [ih ht₂ hplace hbroken.2]
      rcases readThrough t.lines ls s₁ with e | ⟨others, s₂⟩
      · rfl
      · simp [Except.map, Except.bind, crlfResult]

theorem finish_crlf (t : Text) (s : Layout) :
    finish (Text.crlf t).lines s = (finish t.lines s).map RawToken.crlf := by
  have htoken : ∀ kind, tokenAt (Text.crlf t).lines kind s.place [] =
      (tokenAt t.lines kind s.place []).crlf := fun kind => tokenAt_crlf t kind s.place []
  simp only [finish, htoken]
  split_ifs <;> simp

/-! ### Kinds -/

/-- The kinds of the layout tokens before a coding token depend only on the layout. -/
theorem exists_kinds_of_code (s : Layout) :
    ∃ front, ∀ lines kind text tokens s', code lines kind text s = .ok (tokens, s') →
      tokens.map RawToken.kind = front ++ [kind] := by
  refine ⟨if s.atLineStart then
      if s.column < s.place.col then [.indent]
      else (s.indents.takeWhile (s.place.col < ·)).map fun _ => .dedent
    else [], fun lines kind text tokens s' h => ?_⟩
  rw [code_eq] at h
  obtain ⟨⟨layout, indents⟩, hlayout, h⟩ := bind_eq_ok h
  obtain ⟨rfl, -⟩ := Prod.mk.inj (Except.ok.inj h)
  rw [List.map_append]
  refine congrArg (· ++ [kind]) ?_
  split_ifs at hlayout ⊢ with hstart hcolumn
  · simp only [indentTo, if_pos hcolumn] at hlayout
    obtain ⟨rfl, -⟩ := Prod.mk.inj (Except.ok.inj hlayout)
    rfl
  · simp only [indentTo, if_neg hcolumn] at hlayout
    split_ifs at hlayout
    obtain ⟨rfl, -⟩ := Prod.mk.inj (Except.ok.inj hlayout)
    rw [List.map_map]
    rfl
  · obtain ⟨rfl, -⟩ := Prod.mk.inj (Except.ok.inj hlayout)
    rfl

/-- Where one text has a string and another one a broken lexeme, the kinds differ. -/
theorem kinds_ne_of_string_of_broken {lines lines' : List Text} {l l' : Lexeme}
    {after after' : List Lexeme} {tokens tokens' : List RawToken} (hl : l.cls = .string)
    (hl' : l'.cls = .broken) (hne : l'.text ≠ []) (h : readAll lines (l :: after) s = .ok tokens)
    (h' : readAll lines' (l' :: after') s = .ok tokens') :
    tokens.map RawToken.kind ≠ tokens'.map RawToken.kind := by
  obtain ⟨cls, text⟩ := l
  obtain rfl : cls = .string := hl
  obtain ⟨cls', text'⟩ := l'
  obtain rfl : cls' = .broken := hl'
  obtain ⟨c, rest, rfl⟩ := List.exists_cons_of_ne_nil hne
  obtain ⟨front, hfront⟩ := exists_kinds_of_code s
  rw [readAll_cons] at h h'
  obtain ⟨⟨first, s₁⟩, hfirst, h⟩ := bind_eq_ok h
  obtain ⟨others, -, h⟩ := bind_eq_ok h
  obtain rfl := Except.ok.inj h
  obtain ⟨⟨first', s₁'⟩, hfirst', h'⟩ := bind_eq_ok h'
  obtain ⟨others', -, h'⟩ := bind_eq_ok h'
  obtain rfl := Except.ok.inj h'
  change broken lines' (c :: rest) s = _ at hfirst'
  rw [broken_cons] at hfirst'
  obtain ⟨⟨token, s₂⟩, htoken, hfirst'⟩ := bind_eq_ok hfirst'
  obtain ⟨⟨more, s₃⟩, -, hfirst'⟩ := bind_eq_ok hfirst'
  obtain ⟨rfl, -⟩ := Prod.mk.inj (Except.ok.inj hfirst')
  rw [List.map_append, List.map_append, List.map_append, hfront _ _ _ _ _ hfirst,
    hfront _ _ _ _ _ htoken]
  intro heq
  simp at heq

end Layout

/-! ### Texts -/

/-- A token of one text and a token of another that stands at the same place, has the same kind and,
once a carriage return and a line feed are read as a line feed, the same text. -/
structure RawToken.SameBut (a b : RawToken) : Prop where
  kind_eq : a.kind = b.kind
  start_eq : a.start = b.start
  stop_eq : a.stop = b.stop
  text_eq : a.text = Text.lineFeeds b.text

/-- Tokens that are the same but for the line ends in them, or the refusal of the same line. -/
inductive SameTokens : (r r' : Except TokenizeError (List RawToken)) → Prop
  | ok {raw raw' : List RawToken} (h : List.Forall₂ RawToken.SameBut raw raw') :
      SameTokens (.ok raw) (.ok raw')
  | error (line : Nat) : SameTokens (.error (.dedent line)) (.error (.dedent line))

variable {t : Text} {raw : List RawToken}

/-- Without strings that continue on the next line, each token stays what it is. -/
theorem tokenize_crlf (hreturn : '\r' ∉ t) (h : ∀ l ∈ lexemes t, ¬ l.ContinuesOnNextLine) :
    tokenize (Text.crlf t) = (tokenize t).map (List.map RawToken.crlf) := by
  have hthrough := Layout.readThrough_crlf (t := t) (u := []) (v := []) (s := Layout.initial)
    (by rw [List.append_nil]; exact flatten_lexemes t) rfl (lineFeed_not_mem_of_broken hreturn)
  have hall := Layout.readAll_append t.lines (lexemes t) [] Layout.initial
  have hall' := Layout.readAll_append (Text.crlf t).lines ((lexemes t).map Lexeme.crlf) []
    Layout.initial
  rw [List.append_nil] at hall hall'
  rw [tokenize, tokenize, lexemes_crlf hreturn h, hall, hall', hthrough]
  rcases Layout.readThrough t.lines (lexemes t) Layout.initial with e | ⟨tokens, s⟩
  · rfl
  · show Except.ok (tokens.map RawToken.crlf ++ Layout.finish (Text.crlf t).lines s) =
      Except.ok ((tokens ++ Layout.finish t.lines s).map RawToken.crlf)
    rw [Layout.finish_crlf, List.map_append]

theorem sameTokens_of_tokenize_crlf (hreturn : '\r' ∉ t)
    (h : tokenize (Text.crlf t) = (tokenize t).map (List.map RawToken.crlf)) :
    SameTokens (tokenize t) (tokenize (Text.crlf t)) := by
  rw [h]
  rcases htokens : tokenize t with e | raw
  · obtain ⟨line, rfl⟩ := Layout.dedent_of_readAll_eq_error htokens
    exact .error line
  · refine .ok (List.forall₂_map_right_iff.2 (List.forall₂_same.2 fun a ha => ?_))
    obtain ⟨u, v, ht, -⟩ := (standsIn_of_tokenize htokens a ha).spelled
    have hno : '\r' ∉ a.text := fun hmem => hreturn (by rw [← ht]; simp [hmem])
    exact ⟨rfl, rfl, rfl, (Text.lineFeeds_crlf hno).symm⟩

/-- At a string that continues on the next line the kinds part. -/
theorem not_sameTokens_of_continued (hreturn : '\r' ∉ t)
    (h : ∃ l ∈ lexemes t, l.ContinuesOnNextLine) (hraw : tokenize t = .ok raw) :
    ¬ SameTokens (tokenize t) (tokenize (Text.crlf t)) := by
  obtain ⟨before, l, after, l', after', heq, heq', hl, hl', hne⟩ := exists_first_continued hreturn h
  have hbroken : ∀ l ∈ before, l.cls = .broken → '\n' ∉ l.text := fun l hl =>
    lineFeed_not_mem_of_broken hreturn l (by rw [heq]; exact List.mem_append_left _ hl)
  have hthrough := Layout.readThrough_crlf (t := t) (u := [])
    (v := ((l :: after).map Lexeme.text).flatten) (s := Layout.initial)
    (by rw [List.nil_append, ← List.flatten_append, ← List.map_append, ← heq, flatten_lexemes]) rfl
    hbroken
  intro hsame
  rcases hraw' : tokenize (Text.crlf t) with e | raw'
  · rw [hraw, hraw'] at hsame
    cases hsame
  rw [hraw, hraw'] at hsame
  obtain ⟨hforall⟩ := hsame
  have hkinds : raw.map RawToken.kind = raw'.map RawToken.kind := by
    rw [← List.forall₂_eq_eq_eq, List.forall₂_map_left_iff, List.forall₂_map_right_iff]
    exact hforall.imp fun a b hab => hab.kind_eq
  rw [tokenize, heq, Layout.readAll_append] at hraw
  rw [tokenize, heq', Layout.readAll_append, hthrough] at hraw'
  obtain ⟨⟨tokens, s⟩, hbefore, hraw⟩ := bind_eq_ok hraw
  obtain ⟨others, hothers, hraw⟩ := bind_eq_ok hraw
  obtain rfl := Except.ok.inj hraw
  rw [hbefore] at hraw'
  obtain ⟨others', hothers', hraw'⟩ := bind_eq_ok (show (Layout.readAll _ _ s).bind _ = _ from hraw')
  obtain rfl := Except.ok.inj hraw'
  have hcrlf : (tokens.map RawToken.crlf).map RawToken.kind = tokens.map RawToken.kind := by
    rw [List.map_map]
    rfl
  -- the kinds agree up to the string, so they would have to agree from there on
  refine Layout.kinds_ne_of_string_of_broken hl.1 hl' hne hothers hothers' ?_
  rw [List.map_append, List.map_append] at hkinds
  exact List.append_cancel_left (hkinds.trans (congrArg (· ++ _) hcrlf))

/-- **Tokens do not depend on the line ends of their text, unless a string continues on the next line.**
A text without carriage returns has the same tokens once one is put before each line feed, or is refused
at the same line. Of the texts that are not refused, just those with a string in a single quote that
continues on the next line after a backslash make an exception. -/
theorem sameTokens_crlf (hreturn : '\r' ∉ t) :
    ((∀ l ∈ lexemes t, ¬ l.ContinuesOnNextLine) →
      SameTokens (tokenize t) (tokenize (Text.crlf t))) ∧
    ∀ raw, tokenize t = .ok raw → (SameTokens (tokenize t) (tokenize (Text.crlf t)) ↔
      ∀ l ∈ lexemes t, ¬ l.ContinuesOnNextLine) := by
  have hsame : (∀ l ∈ lexemes t, ¬ l.ContinuesOnNextLine) →
      SameTokens (tokenize t) (tokenize (Text.crlf t)) := fun h =>
    sameTokens_of_tokenize_crlf hreturn (tokenize_crlf hreturn h)
  refine ⟨hsame, fun raw hraw => ⟨fun h => ?_, hsame⟩⟩
  by_contra hcontinued
  push Not at hcontinued
  exact not_sameTokens_of_continued hreturn hcontinued hraw h

/-- A block with a string in triple quotes that continues on the next line, a continued line end and a
comment. -/
def docText : Text := "if x:\n  '''a\\\nb'''\\\n  # c\n".toList

theorem sameTokens_crlf_docText :
    '\r' ∉ docText ∧ (∀ l ∈ lexemes docText, ¬ l.ContinuesOnNextLine) ∧
      ∃ raw, tokenize docText = .ok raw ∧ SameTokens (tokenize docText) (tokenize docText.crlf) := by
  have hreturn : '\r' ∉ docText := by decide +kernel
  have hno : ∀ l ∈ lexemes docText, ¬ l.ContinuesOnNextLine := by decide +kernel
  have hok : (tokenize docText).isOk = true := by decide +kernel
  rcases hraw : tokenize docText with e | raw
  · rw [hraw] at hok
    cases hok
  · refine ⟨hreturn, hno, raw, rfl, ?_⟩
    rw [← hraw]
    exact ((sameTokens_crlf hreturn).2 raw hraw).2 hno

/-- A string in a single quote that continues on the next line. -/
def continuedText : Text := ['\'', '\\', '\n', '\'']

/-- Before a line feed the string is one token, and before a carriage return it breaks off. -/
theorem not_sameTokens_continuedText :
    '\r' ∉ continuedText ∧
      (tokenize continuedText).map (List.map fun a => (a.kind, a.text)) =
        .ok [(.string, continuedText), (.newline, []), (.endMarker, [])] ∧
      (tokenize continuedText.crlf).map (List.map fun a => (a.kind, a.text)) =
        .ok [(.errorToken, ['\'']), (.errorToken, ['\'']), (.newline, []), (.endMarker, [])] ∧
      ¬ SameTokens (tokenize continuedText) (tokenize continuedText.crlf) := by
  have hreturn : '\r' ∉ continuedText := by decide
  have htokens : (tokenize continuedText).map (List.map fun a => (a.kind, a.text)) =
      .ok [(.string, continuedText), (.newline, []), (.endMarker, [])] := by decide +kernel
  have hcontinued : ∃ l ∈ lexemes continuedText, l.ContinuesOnNextLine := by decide +kernel
  refine ⟨hreturn, htokens, by decide +kernel, ?_⟩
  rcases hraw : tokenize continuedText with e | raw
  · rw [hraw] at htokens
    cases htokens
  · rw [← hraw]
    exact not_sameTokens_of_continued hreturn hcontinued hraw

end SourceSpans
