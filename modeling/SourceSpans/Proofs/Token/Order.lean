import SourceSpans.Proofs.Except
import SourceSpans.Proofs.Text.Places
import SourceSpans.Proofs.Token.Lexemes
import SourceSpans.Source.Basic

/-!
# The order of tokens

A source can be made of tokens none of which starts before the one before it stops. The tokens read
off a text are so with one exception: a comment that ends at a carriage return without a line feed.
This carriage return may open the logical line, and the `INDENT` for its column begins where the
physical line begins, before the comment.

* **Lexemes** (`read_isChain`): what is read of one lexeme is in order after the tokens before it,
  unless the last of these is a comment that the lexeme cuts.
* **Texts** (`isChain_of_tokenize`): two tokens in a row are in order, unless they are a comment and an
  `INDENT`, and these come in a row only where a comment is cut.
* **Sources** (`ofText?_fails_only_at_cut_comments`): the tokens of a text make a source if and only
  if no comment is followed by an `INDENT`.
-/

namespace SourceSpans

namespace RawToken

/-- A token does not start before another one stops. -/
def Before (a b : RawToken) : Prop := a.stop.le b.start = true

/-- A comment and the white space of its own line. -/
def Cut (a b : RawToken) : Prop := a.kind = .comment ∧ b.kind = .indent

/-- Two tokens in a row are in order unless the second cuts the first, and this they do only
if `p` is so. -/
def Linked (p : Prop) (a b : RawToken) : Prop := (a.Before b ↔ ¬ a.Cut b) ∧ (a.Cut b → p)

theorem Linked.of_before {p : Prop} {a b : RawToken} (h : a.Before b) (hkind : b.kind ≠ .indent) :
    Linked p a b := by
  have hcut : ¬ a.Cut b := fun hc => hkind hc.2
  exact ⟨iff_of_true h hcut, fun hc => absurd hc hcut⟩

/-- Tokens without an extent that stand at one position, and a token after them. -/
theorem isChain_standing {p : Prop} {place : Position} {ts : List RawToken} {last t : RawToken}
    (hlast : last.stop.le place = true)
    (hts : ∀ d ∈ ts, d.start = place ∧ d.stop = place ∧ d.kind ≠ .indent)
    (ht : t.start = place ∧ t.kind ≠ .indent) : (last :: (ts ++ [t])).IsChain (Linked p) := by
  induction ts generalizing last with
  | nil =>
    rw [List.nil_append, List.isChain_pair]
    exact .of_before (by rwa [Before, ht.1]) ht.2
  | cons d ts ih =>
    obtain ⟨hstart, hstop, hkind⟩ := hts d List.mem_cons_self
    rw [List.cons_append, List.isChain_cons_cons]
    refine ⟨.of_before (by rwa [Before, hstart]) hkind, ?_⟩
    exact ih (by rw [hstop]; exact place.le_refl) fun d hd => hts d (List.mem_cons_of_mem _ hd)

end RawToken

open RawToken (Before Cut Linked)

namespace Layout

variable {lines : List Text} {p : Prop} {s s' : Layout} {last : RawToken} {tokens : List RawToken}

/-- The state after a token: what is read next stands after it, and a logical line that is still to be
opened begins on a later line, unless the token is a comment. -/
structure Follows (s : Layout) (last : RawToken) : Prop where
  stop_le : last.stop.le s.place = true
  stop_le_lineStart : s.atLineStart = true → last.kind ≠ .comment →
    last.stop.le ⟨s.place.line, 0⟩ = true
  of_comment : last.kind = .comment → last.stop = s.place ∧ s.place.col ≠ 0

/-- Reading goes on from one token to another: the tokens read in between are in order, and the state
is one after the last of them. -/
structure LeadsTo (p : Prop) (last : RawToken) (tokens : List RawToken) (s : Layout)
    (next : RawToken) : Prop where
  ends : ∃ front, last :: tokens = front ++ [next]
  isChain : (last :: tokens).IsChain (Linked p)
  follows : s.Follows next

theorem Follows.leadsTo (h : s.Follows last) : LeadsTo p last [] s last :=
  ⟨⟨[], rfl⟩, .singleton last, h⟩

/-- What is in order after the last token is in order after all. -/
theorem LeadsTo.isChain_append {others : List RawToken} {next : RawToken}
    (h : LeadsTo p last tokens s next) (hothers : (next :: others).IsChain (Linked p)) :
    (last :: (tokens ++ others)).IsChain (Linked p) := by
  obtain ⟨front, hfront⟩ := h.ends
  rw [← List.cons_append, hfront, List.append_assoc, List.singleton_append, List.isChain_split,
    ← hfront]
  exact ⟨h.isChain, hothers⟩

theorem LeadsTo.trans {others : List RawToken} {next next' : RawToken}
    (h : LeadsTo p last tokens s next) (h' : LeadsTo p next others s' next') :
    LeadsTo p last (tokens ++ others) s' next' := by
  obtain ⟨front, hfront⟩ := h.ends
  obtain ⟨front', hfront'⟩ := h'.ends
  refine ⟨⟨front ++ front', ?_⟩, h.isChain_append h'.isChain, h'.follows⟩
  rw [← List.cons_append, hfront, List.append_assoc, List.singleton_append, hfront',
    List.append_assoc]

/-- The white space of a line comes in order after the tokens before it, unless it cuts a comment. -/
theorem Follows.linked_indentToken (hs : s.Follows last) (hstart : s.atLineStart = true)
    (hp : last.kind = .comment → p) : Linked p last (indentToken lines s.place) := by
  by_cases hcomment : last.kind = .comment
  · obtain ⟨hstop, hcol⟩ := hs.of_comment hcomment
    have hnot : ¬ last.Before (indentToken lines s.place) := by
      unfold Before
      rw [hstop, Position.le_iff]
      show ¬ (s.place.line < s.place.line ∨ s.place.line = s.place.line ∧ s.place.col ≤ 0)
      omega
    exact ⟨iff_of_false hnot fun hcut => hcut ⟨hcomment, rfl⟩, fun _ => hp hcomment⟩
  · have hbefore : last.Before (indentToken lines s.place) :=
      hs.stop_le_lineStart hstart hcomment
    have hcut : ¬ last.Cut (indentToken lines s.place) := fun hc => hcomment hc.1
    exact ⟨iff_of_true hbefore hcut, fun hc => absurd hc hcut⟩

/-! ### Coding tokens -/

theorem indentTo_cases {layout : List RawToken} {indents : List Nat}
    (h : indentTo lines s = .ok (layout, indents)) :
    layout = [indentToken lines s.place] ∨
      ∃ n, layout = List.replicate n (tokenAt lines .dedent s.place []) := by
  simp only [indentTo] at h
  split_ifs at h
  · left
    exact (Prod.mk.inj (Except.ok.inj h)).1.symm
  · right
    rw [← (Prod.mk.inj (Except.ok.inj h)).1, List.map_const']
    exact ⟨_, rfl⟩

theorem code_eq (lines : List Text) (kind : TokenKind) (text : Text) (s : Layout) :
    code lines kind text s =
      (if s.atLineStart then indentTo lines s else .ok ([], s.indents)).bind fun r =>
        .ok (r.1 ++ [tokenAt lines kind s.place text],
          { place := s.place.advance text, indents := r.2, depth := depthAfter s.depth kind text,
            atLineStart := false, hasCode := true }) := by
  unfold code
  split <;> rfl

/-- A coding token is read after the layout tokens for it. -/
theorem code_cases {kind : TokenKind} {text : Text}
    (h : code lines kind text s = .ok (tokens, s')) :
    ∃ layout, tokens = layout ++ [tokenAt lines kind s.place text] ∧
      s'.place = s.place.advance text ∧ s'.atLineStart = false ∧
      (layout = [indentToken lines s.place] ∧ s.atLineStart = true ∨
        ∃ n, layout = List.replicate n (tokenAt lines .dedent s.place [])) := by
  rw [code_eq] at h
  obtain ⟨⟨layout, indents⟩, hlayout, h⟩ := bind_eq_ok h
  obtain ⟨rfl, rfl⟩ := Prod.mk.inj (Except.ok.inj h)
  refine ⟨layout, rfl, rfl, rfl, ?_⟩
  split_ifs at hlayout with hstart
  · rcases indentTo_cases hlayout with heq | hreplicate
    · exact Or.inl ⟨heq, hstart⟩
    · exact Or.inr hreplicate
  · exact Or.inr ⟨0, (Prod.mk.inj (Except.ok.inj hlayout)).1.symm⟩

/-- A coding token comes in order after the tokens before it. -/
theorem code_isChain {kind : TokenKind} {text : Text} (hkind : kind ≠ .comment ∧ kind ≠ .indent)
    (hs : s.Follows last) (hp : last.kind = .comment → p)
    (h : code lines kind text s = .ok (tokens, s')) :
    ∃ next, LeadsTo p last tokens s' next ∧ next.kind ≠ .comment := by
  obtain ⟨layout, rfl, hplace, hstart, hlayout⟩ := code_cases h
  have hnext : s'.Follows (tokenAt lines kind s.place text) :=
    ⟨by rw [hplace]; exact Position.le_refl _, fun hopen => absurd (hstart.symm.trans hopen) nofun,
      fun hcomment => absurd hcomment hkind.1⟩
  refine ⟨_, ⟨⟨last :: layout, rfl⟩, ?_, hnext⟩, hkind.1⟩
  rcases hlayout with ⟨rfl, hopen⟩ | ⟨n, rfl⟩
  · rw [List.singleton_append, List.isChain_cons_cons, List.isChain_pair]
    exact ⟨hs.linked_indentToken hopen hp, .of_before (Position.le_refl _) hkind.2⟩
  · refine RawToken.isChain_standing hs.stop_le (fun d hd => ?_) ⟨rfl, hkind.2⟩
    rw [(List.mem_replicate.1 hd).2]
    exact ⟨rfl, rfl, nofun⟩

theorem broken_cons (lines : List Text) (c : Char) (rest : Text) (s : Layout) :
    broken lines (c :: rest) s =
      (code lines .errorToken [c] s).bind fun r =>
        (broken lines rest r.2).bind fun r' => .ok (r.1 ++ r'.1, r'.2) := rfl

/-- The characters of a broken lexeme come in order after the tokens before them. -/
theorem broken_isChain {text : Text} (hs : s.Follows last) (hp : last.kind = .comment → p)
    (h : broken lines text s = .ok (tokens, s')) :
    ∃ next, LeadsTo p last tokens s' next ∧
      (next.kind = .comment → last.kind = .comment ∧ text = []) := by
  induction text generalizing s last tokens with
  | nil =>
    obtain ⟨rfl, rfl⟩ := Prod.mk.inj (Except.ok.inj h)
    exact ⟨last, hs.leadsTo, fun hcomment => ⟨hcomment, rfl⟩⟩
  | cons c rest ih =>
    rw [broken_cons] at h
    obtain ⟨⟨first, s₁⟩, hcode, h⟩ := bind_eq_ok h
    obtain ⟨⟨others, s₂⟩, hrest, h⟩ := bind_eq_ok h
    obtain ⟨rfl, rfl⟩ := Prod.mk.inj (Except.ok.inj h)
    have herror : TokenKind.errorToken ≠ .comment ∧ TokenKind.errorToken ≠ .indent :=
      ⟨nofun, nofun⟩
    obtain ⟨next, hfirst, hkind⟩ := code_isChain herror hs hp hcode
    obtain ⟨next', hothers, hkind'⟩ :=
      ih hfirst.follows (fun hcomment => absurd hcomment hkind) hrest
    exact ⟨next', hfirst.trans hothers, fun hcomment => absurd (hkind' hcomment).1 hkind⟩

/-! ### Lexemes -/

/-- The token of a line break comes in order, and the next line begins after it. -/
theorem lineBreak_isChain {text : Text} (htext : text = ['\n'] ∨ text = ['\r', '\n'])
    (hs : s.Follows last) : [last, (lineBreak lines text s).1].IsChain (Linked p) ∧
      (lineBreak lines text s).2.Follows (lineBreak lines text s).1 ∧
      (lineBreak lines text s).1.kind ≠ .comment := by
  have hkind : (lineBreak lines text s).1.kind ≠ .comment ∧
      (lineBreak lines text s).1.kind ≠ .indent := by
    show (if s.depth = 0 ∧ s.hasCode = true then TokenKind.newline else TokenKind.nl) ≠ _ ∧
      (if s.depth = 0 ∧ s.hasCode = true then TokenKind.newline else TokenKind.nl) ≠ _
    split <;> exact ⟨nofun, nofun⟩
  have hcol : (s.place.advance text).col = 0 := by
    rcases htext with rfl | rfl <;> rfl
  refine ⟨?_, ⟨Position.le_refl _, fun _ _ => ?_, fun hcomment => absurd hcomment hkind.1⟩, hkind.1⟩
  · rw [List.isChain_pair]
    exact .of_before hs.stop_le hkind.2
  · show (s.place.advance text).le ⟨(s.place.advance text).line, 0⟩ = true
    rw [Position.le_iff, hcol]
    exact Or.inr ⟨rfl, Nat.le_refl 0⟩

/-- **What is read of a lexeme comes in order after the tokens before it.** A comment is followed by a
line break, or by a broken lexeme that cuts it. -/
theorem read_isChain {l : Lexeme}
    (hbreak : l.cls = .lineBreak → l.text = ['\n'] ∨ l.text = ['\r', '\n'])
    (hcomment : l.cls = .comment → '\n' ∉ l.text) (hne : l.text ≠ [])
    (hafter : last.kind = .comment → l.cls = .lineBreak ∨ p ∧ l.cls = .broken)
    (hs : s.Follows last) (h : read lines l s = .ok (tokens, s')) :
    ∃ next, LeadsTo p last tokens s' next ∧ (next.kind = .comment → l.cls = .comment) := by
  obtain ⟨cls, text⟩ := l
  have hcode : ∀ kind : TokenKind, kind ≠ .comment ∧ kind ≠ .indent → cls ≠ .lineBreak →
      cls ≠ .broken → code lines kind text s = .ok (tokens, s') →
      ∃ next, LeadsTo p last tokens s' next ∧ (next.kind = .comment → cls = .comment) := by
    intro kind hkind hnbreak hnbroken hcode
    have hp : last.kind = .comment → p := fun hlast =>
      ((hafter hlast).resolve_left hnbreak).1
    obtain ⟨next, hnext, hnkind⟩ := code_isChain hkind hs hp hcode
    exact ⟨next, hnext, fun heq => absurd heq hnkind⟩
  cases cls with
  | gap =>
    obtain ⟨rfl, rfl⟩ := Prod.mk.inj (Except.ok.inj h)
    have hlast : last.kind ≠ .comment := fun hlast => by
      rcases hafter hlast with heq | ⟨-, heq⟩ <;> cases heq
    have hfollows : ({ s with place := s.place.advance text } : Layout).Follows last := by
      refine ⟨?_, fun hstart hkind => ?_, fun heq => absurd heq hlast⟩
      · exact Position.le_trans hs.stop_le (s.place.le_advance text)
      · exact Position.le_trans (hs.stop_le_lineStart hstart hkind)
          (Position.lineStart_le_lineStart (s.place.le_advance text))
    exact ⟨last, hfollows.leadsTo, fun heq => absurd heq hlast⟩
  | comment =>
    obtain ⟨rfl, rfl⟩ := Prod.mk.inj (Except.ok.inj h)
    refine ⟨_, ⟨⟨[last], rfl⟩, ?_, ⟨Position.le_refl _, fun _ hkind => absurd rfl hkind,
      fun _ => ⟨rfl, ?_⟩⟩⟩, fun _ => rfl⟩
    · rw [List.isChain_pair]
      exact .of_before hs.stop_le nofun
    · show (s.place.advance text).col ≠ 0
      have hlength : 0 < text.length := List.length_pos_iff.2 hne
      rw [Position.advance_of_not_mem _ (hcomment rfl)]
      show s.place.col + text.length ≠ 0
      omega
  | lineBreak =>
    obtain ⟨rfl, rfl⟩ := Prod.mk.inj (Except.ok.inj h)
    obtain ⟨hchain, hnext, hkind⟩ := lineBreak_isChain (hbreak rfl) hs
    exact ⟨_, ⟨⟨[last], rfl⟩, hchain, hnext⟩, fun heq => absurd heq hkind⟩
  | name => exact hcode .name ⟨nofun, nofun⟩ nofun nofun h
  | number => exact hcode .number ⟨nofun, nofun⟩ nofun nofun h
  | string => exact hcode .string ⟨nofun, nofun⟩ nofun nofun h
  | operator => exact hcode .op ⟨nofun, nofun⟩ nofun nofun h
  | broken =>
    have hp : last.kind = .comment → p := fun hlast => ((hafter hlast).resolve_left nofun).1
    obtain ⟨next, hnext, hkind⟩ := broken_isChain hs hp h
    exact ⟨next, hnext, fun heq => absurd (hkind heq).2 hne⟩

theorem readAll_cons (lines : List Text) (l : Lexeme) (rest : List Lexeme) (s : Layout) :
    readAll lines (l :: rest) s =
      (read lines l s).bind fun r => (readAll lines rest r.2).bind fun others =>
        .ok (r.1 ++ others) := rfl

/-- The tokens at the end of a text come in order. -/
theorem finish_isChain (hs : s.Follows last) : (last :: finish lines s).IsChain (Linked p) := by
  refine RawToken.isChain_standing hs.stop_le (fun d hd => ?_) ⟨rfl, nofun⟩
  rcases List.mem_append.1 hd with hd | hd
  · split_ifs at hd
    · rw [List.mem_singleton.1 hd]
      exact ⟨rfl, rfl, nofun⟩
    · exact absurd hd List.not_mem_nil
  · rw [(List.mem_replicate.1 hd).2]
    exact ⟨rfl, rfl, nofun⟩

/-- The tokens of lexemes come in order after the tokens before them, except where a broken lexeme
cuts a comment. -/
theorem readAll_isChain {ls : List Lexeme} (hls : ∀ l ∈ ls, ∃ part, part ≠ [] ∧ l = Lexeme.first part)
    (hchain : ls.IsChain fun a b => a.cls = .comment → b.cls = .lineBreak ∨ p ∧ b.cls = .broken)
    (hafter : last.kind = .comment → ∀ l ∈ ls.head?, l.cls = .lineBreak ∨ p ∧ l.cls = .broken)
    (hs : s.Follows last) (h : readAll lines ls s = .ok tokens) :
    (last :: tokens).IsChain (Linked p) := by
  induction ls generalizing s last tokens with
  | nil =>
    obtain rfl := Except.ok.inj h
    exact finish_isChain hs
  | cons l ls ih =>
    rw [readAll_cons] at h
    obtain ⟨⟨first, s₁⟩, hread, h⟩ := bind_eq_ok h
    obtain ⟨others, hrest, h⟩ := bind_eq_ok h
    obtain rfl := Except.ok.inj h
    obtain ⟨part, hpart, rfl⟩ := hls l List.mem_cons_self
    obtain ⟨next, hfirst, hkind⟩ :=
      read_isChain Lexeme.text_of_cls_eq_lineBreak (Lexeme.lineFeed_not_mem_of_cls_eq_comment)
        (Lexeme.text_first_ne_nil hpart) (fun hcomment => hafter hcomment _ rfl) hs hread
    rw [List.isChain_cons] at hchain
    have hothers := ih (fun l hl => hls l (List.mem_cons_of_mem _ hl)) hchain.2
      (fun hcomment l hl => hchain.1 l hl (hkind hcomment)) hfirst.follows hrest
    exact hfirst.isChain_append hothers

end Layout

/-! ### Texts -/

/-- A comment of the text ends at a carriage return that no line feed follows. -/
def Text.CutsComment (t : Text) : Prop :=
  ∃ comment, [⟨.comment, comment⟩, ⟨.broken, ['\r']⟩] <:+: lexemes t

/-- **The tokens of a text are in order except where a comment is cut.** -/
theorem isChain_of_tokenize {t : Text} {raw : List RawToken} (h : tokenize t = .ok raw) :
    raw.IsChain (Linked t.CutsComment) := by
  have hchain : (lexemes t).IsChain fun a b =>
      a.cls = .comment → b.cls = .lineBreak ∨ t.CutsComment ∧ b.cls = .broken := by
    refine List.isChain_iff_forall_rel_of_append_cons_cons.2 fun a b front back heq hcomment => ?_
    rcases List.isChain_iff_forall_rel_of_append_cons_cons.1 (lexemes_isChain t) heq hcomment with
      hbreak | rfl
    · exact Or.inl hbreak
    · obtain ⟨cls, text⟩ := a
      obtain rfl : cls = .comment := hcomment
      exact Or.inr ⟨⟨text, front, back, by rw [heq, List.append_assoc]; rfl⟩, rfl⟩
  -- the tokens come after one that stops where the text starts
  have hinitial : Layout.initial.Follows
      (Layout.tokenAt (Text.lines t) .nl Position.start []) :=
    ⟨Position.le_refl _, fun _ _ => Position.le_refl _, nofun⟩
  have hafter : TokenKind.nl = .comment → ∀ l ∈ (lexemes t).head?,
      l.cls = .lineBreak ∨ t.CutsComment ∧ l.cls = .broken := fun hcomment => nomatch hcomment
  exact (Layout.readAll_isChain (fun l hl => exists_of_mem_lexemes hl) hchain hafter hinitial h).tail

/-! ### Errors -/

namespace Layout

variable {lines : List Text} {s : Layout} {e : TokenizeError}

theorem dedent_of_code_eq_error {kind : TokenKind} {text : Text}
    (h : code lines kind text s = .error e) : ∃ line, e = .dedent line := by
  rw [code_eq] at h
  rcases bind_eq_error h with hlayout | ⟨r, -, h⟩
  · split_ifs at hlayout
    simp only [indentTo] at hlayout
    split_ifs at hlayout
    obtain rfl := Except.error.inj hlayout
    exact ⟨_, rfl⟩
  · cases h

theorem dedent_of_broken_eq_error {text : Text} (h : broken lines text s = .error e) :
    ∃ line, e = .dedent line := by
  induction text generalizing s with
  | nil => cases h
  | cons c rest ih =>
    rw [broken_cons] at h
    rcases bind_eq_error h with hcode | ⟨r, -, h⟩
    · exact dedent_of_code_eq_error hcode
    rcases bind_eq_error h with hrest | ⟨r', -, h⟩
    · exact ih hrest
    · cases h

theorem dedent_of_read_eq_error {l : Lexeme} (h : read lines l s = .error e) :
    ∃ line, e = .dedent line := by
  obtain ⟨cls, text⟩ := l
  cases cls with
  | gap => cases h
  | comment => cases h
  | lineBreak => cases h
  | broken => exact dedent_of_broken_eq_error h
  | name => exact dedent_of_code_eq_error h
  | number => exact dedent_of_code_eq_error h
  | string => exact dedent_of_code_eq_error h
  | operator => exact dedent_of_code_eq_error h

theorem dedent_of_readAll_eq_error {ls : List Lexeme} (h : readAll lines ls s = .error e) :
    ∃ line, e = .dedent line := by
  induction ls generalizing s with
  | nil => cases h
  | cons l ls ih =>
    rw [readAll_cons] at h
    rcases bind_eq_error h with hread | ⟨r, -, h⟩
    · exact dedent_of_read_eq_error hread
    rcases bind_eq_error h with hrest | ⟨others, -, h⟩
    · exact ih hrest
    · cases h

end Layout

theorem disorder?_eq_none_iff {index : Nat} {t : RawToken} {ts : List RawToken} :
    disorder? index t.stop ts = none ↔ (t :: ts).IsChain Before := by
  induction ts generalizing index t with
  | nil => exact iff_of_true rfl (.singleton t)
  | cons d ts ih =>
    rw [disorder?, List.isChain_cons_cons, Before, Position.le, Bool.not_eq_true', ← ih]
    by_cases hlt : d.start.lt t.stop = true
    · rw [if_pos hlt, hlt]
      refine ⟨fun h => ?_, fun h => ?_⟩
      · cases h
      · cases h.1
    · rw [if_neg hlt, Bool.not_eq_true] at *
      exact ⟨fun h => ⟨hlt, h⟩, fun h => h.2⟩

theorem outOfOrder_of_disorder?_eq_some {index : Nat} {stop : Position} {ts : List RawToken}
    {e : TokenizeError} (h : disorder? index stop ts = some e) :
    ∃ i start previousStop, e = .outOfOrder i start previousStop := by
  induction ts generalizing index stop with
  | nil => cases h
  | cons t ts ih =>
    rw [disorder?] at h
    split_ifs at h
    · exact ⟨_, _, _, (Option.some.inj h).symm⟩
    · exact ih h

/-- Tokens are joined if they are in order. -/
theorem normalize_of_isChain {raw : List RawToken} (h : raw.IsChain Before) :
    normalize raw = .ok ((raw.splitBy RawToken.continues).map join).flatten := by
  cases raw with
  | nil => rfl
  | cons t ts => rw [normalize, disorder?_eq_none_iff.2 h]

/-- Tokens that are not in order are refused. -/
theorem normalize_of_not_isChain {raw : List RawToken} (h : ¬ raw.IsChain Before) :
    ∃ index start stop, normalize raw = .error (.outOfOrder index start stop) := by
  cases raw with
  | nil => exact absurd .nil h
  | cons t ts =>
    rcases hdisorder : disorder? 1 t.stop ts with _ | e
    · exact absurd (disorder?_eq_none_iff.1 hdisorder) h
    · obtain ⟨index, start, stop, rfl⟩ := outOfOrder_of_disorder?_eq_some hdisorder
      exact ⟨index, start, stop, by rw [normalize, hdisorder]⟩

/-- **The tokens of a text make a source unless a comment is cut.** A text whose tokens cannot be read
has a line that goes back to a column of no open block. Otherwise its tokens are in order exactly if no
comment is directly followed by an `INDENT`: then they make a source, else they are refused as out of
order, and the text has a comment that ends at a carriage return without a line feed. -/
theorem ofText?_fails_only_at_cut_comments (t : Text) :
    (∀ e, tokenize t = .error e → (∃ line, e = .dedent line) ∧ Source.ofText? t = .error e) ∧
      ∀ raw, tokenize t = .ok raw →
        (raw.IsChain Before ↔ raw.IsChain fun a b => ¬ a.Cut b) ∧
          (raw.IsChain Before → ∃ source, Source.ofText? t = .ok source) ∧
          (¬ raw.IsChain Before → t.CutsComment ∧
            ∃ index start stop, Source.ofText? t = .error (.outOfOrder index start stop)) := by
  refine ⟨fun e h => ⟨Layout.dedent_of_readAll_eq_error h, ?_⟩, fun raw h => ?_⟩
  · rw [Source.ofText?, h]
    rfl
  have hlinked := isChain_of_tokenize h
  have hiff : raw.IsChain Before ↔ raw.IsChain fun a b => ¬ a.Cut b := by
    refine ⟨fun hbefore => ?_, fun hcut => ?_⟩
    · refine List.isChain_iff_forall_rel_of_append_cons_cons.2 fun a b front back heq => ?_
      have hab := List.isChain_iff_forall_rel_of_append_cons_cons.1 hlinked heq
      exact hab.1.1 (List.isChain_iff_forall_rel_of_append_cons_cons.1 hbefore heq)
    · refine List.isChain_iff_forall_rel_of_append_cons_cons.2 fun a b front back heq => ?_
      have hab := List.isChain_iff_forall_rel_of_append_cons_cons.1 hlinked heq
      exact hab.1.2 (List.isChain_iff_forall_rel_of_append_cons_cons.1 hcut heq)
  refine ⟨hiff, fun hbefore => ?_, fun hnot => ⟨?_, ?_⟩⟩
  · rw [Source.ofText?, h]
    exact ⟨_, by rw [Except.bind, Source.ofTokens?, normalize_of_isChain hbefore]; rfl⟩
  · by_contra hno
    refine hnot (hlinked.imp fun a b hab => hab.1.2 fun hcut => hno (hab.2 hcut))
  · obtain ⟨index, start, stop, heq⟩ := normalize_of_not_isChain hnot
    refine ⟨index, start, stop, ?_⟩
    rw [Source.ofText?, h, Except.bind, Source.ofTokens?, heq]
    rfl

/-- A comment cut by a carriage return, whose `INDENT` begins before it. -/
theorem tokens_of_cut_comment :
    tokenize ['#', '\r'] = .ok [
        ⟨.comment, ['#'], ⟨1, 0⟩, ⟨1, 1⟩, ['#', '\r']⟩,
        ⟨.indent, ['#'], ⟨1, 0⟩, ⟨1, 1⟩, ['#', '\r']⟩,
        ⟨.errorToken, ['\r'], ⟨1, 1⟩, ⟨1, 2⟩, ['#', '\r']⟩,
        ⟨.newline, [], ⟨1, 2⟩, ⟨1, 2⟩, ['#', '\r']⟩,
        ⟨.dedent, [], ⟨1, 2⟩, ⟨1, 2⟩, ['#', '\r']⟩,
        ⟨.endMarker, [], ⟨1, 2⟩, ⟨1, 2⟩, ['#', '\r']⟩] ∧
      Source.ofText? ['#', '\r'] = .error (.outOfOrder 1 ⟨1, 0⟩ ⟨1, 1⟩) := by
  decide +kernel

end SourceSpans
