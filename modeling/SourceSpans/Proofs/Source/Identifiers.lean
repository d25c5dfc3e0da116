import SourceSpans.Proofs.Source.Faithful
import SourceSpans.Proofs.Text.Identifiers
import SourceSpans.Proofs.Token.Joining
import SourceSpans.Proofs.Token.Pieces

/-!
# Identifiers are names

A text that begins with an identifier has the name of this identifier as its first token
(`first_token_of_identifier`), whatever the pieces are that it is cut into, with one exception.

* **Reading** (`readAll_pieces`): a piece is read as one token, and the pieces at the start of a text
  open no block, so their tokens stand there one after the other.
* **Joining** (`exists_first_of_pieces`): these tokens go on with one another, and the token after
  them, if it does so too, starts with a character that is in no identifier. So they are joined, if one
  of them is broken; if none is, the identifier is a name from the start.
* **The exception** (`NumberRunsOn`): a number at the end of the identifier may run on into the text
  after it. Then the pieces before the number are joined and the number stays apart
  (`first_token_of_numbered_name`).
-/

namespace SourceSpans

open Lexeme (IsPiece)

/-! ### Reading pieces -/

/-- The kind of the token of a piece. -/
def Lexeme.pieceKind (l : Lexeme) : TokenKind :=
  match l.cls with
  | .name => .name
  | .number => .number
  | _ => .errorToken

namespace Layout

variable {lines : List Text} {s : Layout} {l : Lexeme} {ls : List Lexeme} {place : Position}

/-- The token of a piece. -/
def pieceToken (lines : List Text) (place : Position) (l : Lexeme) : RawToken :=
  tokenAt lines l.pieceKind place l.text

/-- The tokens of pieces, the first of which stands at a place. -/
def pieceTokens (lines : List Text) : Position → List Lexeme → List RawToken
  | _, [] => []
  | place, l :: ls => pieceToken lines place l :: pieceTokens lines (place.advance l.text) ls

/-- A coding token comes here without layout tokens before it. -/
def Flush (lines : List Text) (s : Layout) : Prop :=
  s.atLineStart = true → indentTo lines s = .ok ([], s.indents)

theorem flush_initial (lines : List Text) : initial.Flush lines := fun _ => rfl

theorem code_of_flush (hs : s.Flush lines) (kind : TokenKind) (text : Text) :
    ∃ s', code lines kind text s = .ok ([tokenAt lines kind s.place text], s') ∧
      s'.place = s.place.advance text ∧ s'.Flush lines := by
  have hlayout : (if s.atLineStart then indentTo lines s else .ok ([], s.indents)) =
      .ok ([], s.indents) := by
    split_ifs with hstart
    · exact hs hstart
    · rfl
  rw [code_eq, hlayout]
  exact ⟨_, rfl, rfl, nofun⟩

theorem read_piece (hs : s.Flush lines) (hl : l.IsPiece) :
    ∃ s', read lines l s = .ok ([pieceToken lines s.place l], s') ∧
      s'.place = s.place.advance l.text ∧ s'.Flush lines := by
  obtain ⟨cls, text⟩ := l
  rcases hl.cases with ⟨rfl, hlength⟩ | ⟨rfl | rfl, -⟩
  · obtain ⟨c, rfl⟩ := List.length_eq_one_iff.1 hlength
    obtain ⟨s', hcode, hplace⟩ := code_of_flush hs .errorToken [c]
    refine ⟨s', ?_, hplace⟩
    show broken lines [c] s = _
    rw [broken_cons, hcode]
    rfl
  · exact code_of_flush hs .name text
  · exact code_of_flush hs .number text

/-- Pieces are read one after the other. -/
theorem readAll_pieces {others : List Lexeme} {tokens : List RawToken} (hls : ∀ l ∈ ls, l.IsPiece)
    (hs : s.Flush lines) (h : readAll lines (ls ++ others) s = .ok tokens) :
    ∃ s' rest, tokens = pieceTokens lines s.place ls ++ rest ∧
      readAll lines others s' = .ok rest ∧ s'.place = s.place.advance (Lexeme.spelled ls) ∧
      s'.Flush lines := by
  induction ls generalizing s tokens with
  | nil => exact ⟨s, tokens, rfl, h, rfl, hs⟩
  | cons l ls ih =>
    rw [List.forall_mem_cons] at hls
    obtain ⟨s₁, hread, hplace, hflush⟩ := read_piece hs hls.1
    rw [List.cons_append, readAll_cons, hread] at h
    change (readAll lines (ls ++ others) s₁).bind _ = _ at h
    obtain ⟨tokens', htokens', h⟩ := bind_eq_ok h
    obtain rfl := Except.ok.inj h
    obtain ⟨s', rest, rfl, hrest, hplace', hflush'⟩ := ih hls.2 hflush htokens'
    refine ⟨s', rest, ?_, hrest, ?_, hflush'⟩
    · rw [hplace]
      rfl
    · rw [hplace', hplace, Lexeme.spelled_cons, Position.advance_append]

/-! ### The tokens of pieces -/

theorem spelled_pieceTokens (lines : List Text) (place : Position) (ls : List Lexeme) :
    RawToken.spelled (pieceTokens lines place ls) = Lexeme.spelled ls := by
  induction ls generalizing place with
  | nil => rfl
  | cons l ls ih =>
    rw [pieceTokens, RawToken.spelled_cons, ih, Lexeme.spelled_cons]
    rfl

theorem isPiece_pieceToken (lines : List Text) (place : Position) (l : Lexeme) :
    (pieceToken lines place l).isPiece = true := by
  obtain ⟨cls, text⟩ := l
  cases cls <;> rfl

/-- The tokens of pieces on one line go on with one another. -/
theorem isChain_pieceTokens (lines : List Text) (place : Position) (h : '\n' ∉ Lexeme.spelled ls) :
    (pieceTokens lines place ls).IsChain fun a b => a.continues b = true := by
  induction ls generalizing place with
  | nil => exact .nil
  | cons l ls ih =>
    rw [Lexeme.spelled_cons, List.mem_append, not_or] at h
    refine (ih _ h.2).cons fun b hb => ?_
    obtain _ | ⟨l', ls⟩ := ls
    · cases hb
    obtain rfl := Option.mem_some_iff.1 hb
    have hline : (place.advance l.text).line = place.line := by
      rw [Position.advance_of_not_mem place h.1]
    rw [RawToken.continues, isPiece_pieceToken, isPiece_pieceToken, RawToken.meets]
    simp [pieceToken, tokenAt, hline]

theorem stop_getLast_pieceTokens (lines : List Text) (place : Position) (l : Lexeme)
    (ls : List Lexeme) :
    ((pieceTokens lines place (l :: ls)).getLast (List.cons_ne_nil _ _)).stop =
      place.advance (Lexeme.spelled (l :: ls)) := by
  induction ls generalizing place l with
  | nil =>
    rw [Lexeme.spelled_cons, Lexeme.spelled_nil, List.append_nil]
    rfl
  | cons l' ls ih =>
    rw [Lexeme.spelled_cons, Position.advance_append]
    exact ih (place.advance l.text) l'

theorem any_errorToken_of_broken (lines : List Text) (place : Position) (hl : l ∈ ls)
    (hcls : l.cls = .broken) :
    (pieceTokens lines place ls).any (·.kind == .errorToken) = true := by
  induction ls generalizing place with
  | nil => cases hl
  | cons l' ls ih =>
    rw [pieceTokens, List.any_cons, Bool.or_eq_true]
    rcases List.mem_cons.1 hl with rfl | hl
    · left
      obtain ⟨cls, text⟩ := l
      obtain rfl : cls = .broken := hcls
      rfl
    · exact Or.inr (ih _ hl)

/-! ### Tokens that take no place -/

theorem text_ne_nil_of_code {s' : Layout} {kind : TokenKind} {text : Text} {tokens : List RawToken}
    (htext : text ≠ []) (h : code lines kind text s = .ok (tokens, s')) :
    ∀ a ∈ tokens, a.isPiece = true → a.text ≠ [] := by
  obtain ⟨layout, rfl, -, -, hlayout⟩ := code_cases h
  intro a ha hpiece
  rw [List.mem_append, List.mem_singleton] at ha
  rcases ha with ha | rfl
  · rcases hlayout with ⟨rfl, -⟩ | ⟨n, rfl⟩
    · rw [List.mem_singleton.1 ha] at hpiece
      cases hpiece
    · rw [(List.mem_replicate.1 ha).2] at hpiece
      cases hpiece
  · exact htext

theorem text_ne_nil_of_broken {s' : Layout} {text : Text} {tokens : List RawToken}
    (h : broken lines text s = .ok (tokens, s')) :
    ∀ a ∈ tokens, a.isPiece = true → a.text ≠ [] := by
  induction text generalizing s tokens with
  | nil =>
    obtain ⟨rfl, rfl⟩ := Prod.mk.inj (Except.ok.inj h)
    exact nofun
  | cons c rest ih =>
    rw [broken_cons] at h
    obtain ⟨⟨first, s₁⟩, hcode, h⟩ := bind_eq_ok h
    obtain ⟨⟨others, s₂⟩, hrest, h⟩ := bind_eq_ok h
    obtain ⟨rfl, rfl⟩ := Prod.mk.inj (Except.ok.inj h)
    intro a ha
    rcases List.mem_append.1 ha with ha | ha
    · exact text_ne_nil_of_code (List.cons_ne_nil c []) hcode a ha
    · exact ih hrest a ha

theorem text_ne_nil_of_read {s' : Layout} {tokens : List RawToken} (hne : l.text ≠ [])
    (h : read lines l s = .ok (tokens, s')) :
    ∀ a ∈ tokens, a.isPiece = true → a.text ≠ [] := by
  obtain ⟨cls, text⟩ := l
  cases cls with
  | gap =>
    obtain ⟨rfl, rfl⟩ := Prod.mk.inj (Except.ok.inj h)
    exact nofun
  | comment =>
    obtain ⟨rfl, rfl⟩ := Prod.mk.inj (Except.ok.inj h)
    intro a ha hpiece
    rw [List.mem_singleton.1 ha] at hpiece
    cases hpiece
  | lineBreak =>
    obtain ⟨rfl, rfl⟩ := Prod.mk.inj (Except.ok.inj h)
    intro a ha _
    rw [List.mem_singleton.1 ha]
    exact hne
  | broken => exact text_ne_nil_of_broken h
  | name => exact text_ne_nil_of_code hne h
  | number => exact text_ne_nil_of_code hne h
  | string => exact text_ne_nil_of_code hne h
  | operator => exact text_ne_nil_of_code hne h

theorem text_ne_nil_of_readAll {tokens : List RawToken} (hls : ∀ l ∈ ls, l.text ≠ [])
    (h : readAll lines ls s = .ok tokens) : ∀ a ∈ tokens, a.isPiece = true → a.text ≠ [] := by
  induction ls generalizing s tokens with
  | nil =>
    obtain rfl := Except.ok.inj h
    intro a ha hpiece
    rw [finish, List.mem_append, List.mem_append, List.mem_singleton] at ha
    rcases ha with (ha | ha) | rfl
    · split_ifs at ha
      · rw [List.mem_singleton.1 ha] at hpiece
        cases hpiece
      · cases ha
    · rw [(List.mem_replicate.1 ha).2] at hpiece
      cases hpiece
    · cases hpiece
  | cons l ls ih =>
    rw [List.forall_mem_cons] at hls
    rw [readAll_cons] at h
    obtain ⟨⟨first, s₁⟩, hread, h⟩ := bind_eq_ok h
    obtain ⟨others, hrest, h⟩ := bind_eq_ok h
    obtain rfl := Except.ok.inj h
    intro a ha
    rcases List.mem_append.1 ha with ha | ha
    · exact text_ne_nil_of_read hls.1 hread a ha
    · exact ih hls.2 hrest a ha

end Layout

/-- Pieces of identifiers that are read from a text are not empty. -/
theorem text_ne_nil_of_tokenize {t : Text} {raw : List RawToken} (h : tokenize t = .ok raw) :
    ∀ a ∈ raw, a.isPiece = true → a.text ≠ [] := by
  refine Layout.text_ne_nil_of_readAll (fun l hl => ?_) h
  obtain ⟨part, hpart, rfl⟩ := exists_of_mem_lexemes hl
  exact Lexeme.text_first_ne_nil hpart

/-! ### The first token -/

section first

variable {w rest : Text} {raw : List RawToken} {ls : List Lexeme}

/-- The tokens of the pieces of an identifier stand at the start of its text, and the token after them,
if it goes on with the last of them, does not go on with the identifier. -/
theorem exists_pieceTokens (hrest : rest.EndsIdentifier) (hls : ∀ l ∈ ls, l.IsPiece)
    (hcases : Lexeme.spelled ls = w ∧ lexemes (w ++ rest) = ls ++ lexemes rest ∨
      NumberRunsOnAfter ls w rest)
    (h : tokenize (w ++ rest) = .ok raw) :
    ∃ others, raw = Layout.pieceTokens (w ++ rest).lines Position.start ls ++ others ∧
      ∀ b ∈ others.head?, b.isPiece = true → b.start = Position.start.advance (Lexeme.spelled ls) →
        ∃ c ∈ b.text, Text.isXidContinue c = false := by
  have hstands := standsIn_of_tokenize h
  have hsolid := text_ne_nil_of_tokenize h
  have hflush := Layout.flush_initial (w ++ rest).lines
  rcases hcases with ⟨hspelled, hlexemes⟩ | hruns
  · rw [tokenize, hlexemes] at h
    obtain ⟨s', others, rfl, -⟩ := Layout.readAll_pieces hls hflush h
    refine ⟨others, rfl, fun b hb hpiece hstart => ?_⟩
    have hmem : b ∈ Layout.pieceTokens (w ++ rest).lines Position.start ls ++ others :=
      List.mem_append_right _ (List.mem_of_mem_head? hb)
    obtain ⟨u, v, ht, hu⟩ := (hstands b hmem).spelled
    rw [hspelled] at hstart
    -- `b` stands where `w` ends, so it begins with what comes after `w`
    obtain rfl : u = w := Text.eq_of_advance_eq
      ⟨b.text ++ v, by rw [← List.append_assoc]; exact ht⟩ ⟨rest, rfl⟩ (hu.trans hstart)
    rw [List.append_assoc, List.append_cancel_left_eq] at ht
    obtain ⟨c, text, htext⟩ := List.exists_cons_of_ne_nil (hsolid b hmem hpiece)
    refine ⟨c, by rw [htext]; exact List.mem_cons_self, (hrest c ?_).1⟩
    rw [← ht, htext]
    rfl
  · obtain ⟨number, c, more, others', hlexemes, -, -, -, hc, -⟩ := hruns.exists_cons hrest
    rw [tokenize, hlexemes] at h
    obtain ⟨s', others, rfl, hothers, -, hflush'⟩ := Layout.readAll_pieces hls hflush h
    obtain ⟨s₁, hread, -⟩ := Layout.code_of_flush hflush' .number (number ++ c :: more)
    rw [Layout.readAll_cons] at hothers
    have hfirst : Layout.read (w ++ rest).lines ⟨.number, number ++ c :: more⟩ s' =
        .ok ([Layout.tokenAt (w ++ rest).lines .number s'.place (number ++ c :: more)], s₁) := hread
    rw [hfirst] at hothers
    obtain ⟨others₁, -, hothers⟩ := bind_eq_ok
      (show (Layout.readAll (w ++ rest).lines others' s₁).bind _ = .ok others from hothers)
    obtain rfl := Except.ok.inj hothers
    refine ⟨_, rfl, fun b hb _ _ => ?_⟩
    obtain rfl := Option.mem_some_iff.1 hb
    exact ⟨c, by simp [Layout.tokenAt], (hrest c hc).1⟩

/-- After joining, the first token is the name that the pieces of the identifier make up. -/
theorem exists_first_of_pieces {joined : List RawToken} (hw : Text.isIdentifier w = true)
    (hrest : rest.EndsIdentifier) (h : tokenize (w ++ rest) = .ok raw)
    (hjoined : normalize raw = .ok joined) :
    ∃ ls a, joined.head? = some a ∧ a.kind = .name ∧ a.text = Lexeme.spelled ls ∧ ls ≠ [] ∧
      (Lexeme.spelled ls = w ∧ lexemes (w ++ rest) = ls ++ lexemes rest ∨
        NumberRunsOnAfter ls w rest) := by
  obtain ⟨ls, hls, hname, hcases⟩ := exists_pieces_of_isIdentifier hw hrest
  obtain ⟨others, rfl, hothers⟩ := exists_pieceTokens hrest hls hcases h
  have hne : ls ≠ [] := by
    rintro rfl
    rcases hname with hname | ⟨l, hl, -⟩
    · cases hname
    · cases hl
  refine ⟨ls, ?_⟩
  obtain ⟨l, ls, rfl⟩ := List.exists_cons_of_ne_nil hne
  have hid : Text.isIdentifier (Lexeme.spelled (l :: ls)) = true := by
    have hspelled : Lexeme.spelled (l :: ls) ≠ [] := fun hnil =>
      (hls l List.mem_cons_self).text_ne_nil (List.append_eq_nil_iff.1 hnil).1
    rcases hcases with ⟨heq, -⟩ | ⟨number, _, _, -, heq, -⟩
    · rwa [heq]
    · exact Text.isIdentifier_of_append hspelled (by rwa [heq])
  have hfeed : '\n' ∉ Lexeme.spelled (l :: ls) := fun hmem =>
    absurd (Text.isXidContinue_of_isIdentifier hid _ hmem) (by decide +kernel)
  have hchain := Layout.isChain_pieceTokens (w ++ rest).lines Position.start hfeed
  have hspelled := Layout.spelled_pieceTokens (w ++ rest).lines Position.start (l :: ls)
  have hhead := head?_normalize hjoined (hls l List.mem_cons_self).text_ne_nil hchain
    (by rwa [← hspelled] at hid) fun b hb hcontinues => by
      obtain ⟨-, hpiece, hmeets⟩ := RawToken.isPiece_and_meets_of_continues hcontinues
      rw [RawToken.meets, Bool.and_eq_true, beq_iff_eq] at hmeets
      obtain ⟨c, hc, hno⟩ := hothers b hb hpiece
        (hmeets.1.symm.trans (Layout.stop_getLast_pieceTokens _ _ l ls))
      refine Bool.eq_false_iff.2 fun hlonger => ?_
      rw [Text.isXidContinue_of_isIdentifier hlonger c (List.mem_append_right _ hc)] at hno
      cases hno
  refine ⟨_, hhead, ?_⟩
  rcases hname with hname | ⟨broken, hmem, hbroken⟩
  · obtain ⟨rfl, rfl⟩ := List.cons_eq_cons.1 hname
    exact ⟨rfl, (List.append_nil w).symm, List.cons_ne_nil _ _, hcases⟩
  · have herror := Layout.any_errorToken_of_broken (w ++ rest).lines Position.start hmem hbroken
    rw [Layout.pieceTokens] at herror
    rw [if_pos herror]
    exact ⟨rfl, hspelled, List.cons_ne_nil _ _, hcases⟩

end first

namespace Source

variable {w rest : Text} {source : Source}

/-- **An identifier is the first token of a text that begins with it, unless a number runs on.** If a
number begins in the identifier and runs on into the text after it, the first token is a name still, but
only of a part of the identifier. This happens to no identifier of ASCII characters, and only before a
point or a sign. -/
theorem first_token_of_identifier (hw : Text.isIdentifier w = true) (hrest : rest.EndsIdentifier)
    (h : ofText? (w ++ rest) = .ok source) :
    ((∃ a, source.tokens[0]? = some a ∧ a.kind = .name ∧ a.text = w) ↔ ¬ NumberRunsOn w rest) ∧
      (NumberRunsOn w rest → (∃ c ∈ w, 127 < c.toNat) ∧
        (∃ c ∈ rest.head?, c = '.' ∨ c = '+' ∨ c = '-') ∧
          ∃ a, source.tokens[0]? = some a ∧ a.kind = .name ∧ a.text <+: w ∧ a.text ≠ w) := by
  obtain ⟨raw, hraw, h⟩ := bind_eq_ok h
  unfold ofTokens? at h
  rcases hjoined : normalize raw with e | joined <;> rw [hjoined] at h
  · cases h
  obtain rfl := Except.ok.inj h
  obtain ⟨ls, first, hhead, hkind, htext, hne, hcases⟩ :=
    exists_first_of_pieces hw hrest hraw hjoined
  have hfirst : (build (w ++ rest) joined).tokens[0]? =
      some ⟨first, 0, (w ++ rest).offset first.start, (w ++ rest).offset first.stop⟩ := by
    rw [getElem?_build, ← List.head?_eq_getElem?, hhead]
    rfl
  rcases hcases with ⟨hspelled, hlexemes⟩ | hruns
  · have hnot := not_numberRunsOn hspelled hlexemes
    refine ⟨iff_of_true ⟨_, hfirst, hkind, htext.trans hspelled⟩ hnot, fun hruns => ?_⟩
    exact absurd hruns hnot
  · obtain ⟨number, c, more, others, hlexemes, hspelled, hnumber, hpart, hc, hcases⟩ :=
      hruns.exists_cons hrest
    have htext_ne : first.text ≠ w := by
      rw [htext, ← hspelled]
      exact fun heq => hnumber (List.self_eq_append_right.1 heq)
    refine ⟨iff_of_false ?_ (not_not.2 ⟨ls, hruns⟩), fun _ => ⟨?_, ⟨c, hc, hcases⟩,
      ⟨_, hfirst, hkind, ⟨number, by rw [htext, hspelled]⟩, htext_ne⟩⟩⟩
    · rintro ⟨a, ha, -, haw⟩
      rw [hfirst] at ha
      obtain rfl := Option.some.inj ha
      exact htext_ne haw
    · exact NumberRunsOn.exists_lt_toNat ⟨ls, hruns⟩ hw hrest

/-- A name with a middle dot and a digit, before an operator. -/
def assignedText : Text := "℘·2".toList ++ "=1\n".toList

/-- The tokens of `assignedText`. -/
def assignedTokens : List RawToken :=
  let line := assignedText
  [⟨.name, "℘·2".toList, ⟨1, 0⟩, ⟨1, 3⟩, line⟩,
    ⟨.op, "=".toList, ⟨1, 3⟩, ⟨1, 4⟩, line⟩,
    ⟨.number, "1".toList, ⟨1, 4⟩, ⟨1, 5⟩, line⟩,
    ⟨.newline, "\n".toList, ⟨1, 5⟩, ⟨2, 0⟩, line⟩,
    ⟨.endMarker, [], ⟨2, 0⟩, ⟨2, 0⟩, []⟩]

/-- The first token is the name, and no number runs on. -/
theorem first_token_of_assignedText :
    Text.isIdentifier "℘·2".toList = true ∧ Text.EndsIdentifier "=1\n".toList ∧
      ofText? assignedText = .ok (build assignedText assignedTokens) ∧
      (∃ a, (build assignedText assignedTokens).tokens[0]? = some a ∧ a.kind = .name ∧
        a.text = "℘·2".toList) ∧
      ¬ NumberRunsOn "℘·2".toList "=1\n".toList := by
  have hw : Text.isIdentifier "℘·2".toList = true := by decide +kernel
  have hrest : Text.EndsIdentifier "=1\n".toList := by decide +kernel
  have h : ofText? assignedText = .ok (build assignedText assignedTokens) := by decide +kernel
  have hname : ∃ a, (build assignedText assignedTokens).tokens[0]? = some a ∧ a.kind = .name ∧
      a.text = "℘·2".toList := ⟨_, rfl, rfl, rfl⟩
  obtain ⟨hiff, -⟩ := first_token_of_identifier hw hrest h
  exact ⟨hw, hrest, h, hname, hiff.1 hname⟩

/-- Before a point, a number at the end of an identifier takes the point, and the identifier falls
apart. -/
theorem first_token_of_numbered_name :
    Text.isIdentifier "é1".toList = true ∧ Text.EndsIdentifier ".x\n".toList ∧
      (ofText? ("é1".toList ++ ".x\n".toList)).map
          (fun source => source.tokens.toList.map fun a => (a.kind, a.text)) =
        .ok [(.name, "é".toList), (.number, "1.".toList), (.name, "x".toList), (.newline, "\n".toList),
          (.endMarker, [])] := by
  decide +kernel

end Source

end SourceSpans
