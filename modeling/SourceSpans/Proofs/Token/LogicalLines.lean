import SourceSpans.Proofs.Token.Reading

/-!
# Logical lines

A line break outside brackets ends a logical line of a text (`logicalLines`). A logical line with code
begins at its first coding lexeme (`Text.openings`). This is said of the lexemes of a text, whether its
tokens can be read or not.

Reading meets the beginnings of the logical lines one by one: those that are still to come
(`Layout.openingsFrom`) lose the first one when a coding lexeme opens a logical line, and stay the same
otherwise. So there is a `NEWLINE` for each logical line with code (`count_newline_of_tokenize`).
-/

namespace SourceSpans

/-- A lexeme with the place where it starts. -/
structure PlacedLexeme extends Lexeme where
  place : Position

/-- Lexemes with their places, the first of which is given. -/
def placedFrom (place : Position) : List Lexeme → List PlacedLexeme
  | [] => []
  | l :: rest => ⟨l, place⟩ :: placedFrom (place.advance l.text) rest

/-- The logical lines of lexemes before which so many brackets are open. -/
def logicalLinesFrom (depth : Nat) : List PlacedLexeme → List (List PlacedLexeme)
  | [] => [[]]
  | l :: rest =>
      if l.cls = .lineBreak ∧ depth = 0 then [l] :: logicalLinesFrom 0 rest
      else match logicalLinesFrom (l.depthAfter depth) rest with
        | [] => [[l]]
        | line :: others => (l :: line) :: others

/-- The logical lines of a text. -/
def logicalLines (t : Text) : List (List PlacedLexeme) :=
  logicalLinesFrom 0 (placedFrom Position.start (lexemes t))

/-- The place of the first coding lexeme of a logical line, if there is one. -/
def firstCode? (line : List PlacedLexeme) : Option Position :=
  (line.find? (·.isCode)).map (·.place)

/-- The places where the logical lines of a text that hold code begin. -/
def Text.openings (t : Text) : List Position := (logicalLines t).filterMap firstCode?

theorem logicalLinesFrom_ne_nil (depth : Nat) (ls : List PlacedLexeme) :
    logicalLinesFrom depth ls ≠ [] := by
  cases ls with
  | nil => exact List.cons_ne_nil _ _
  | cons l ls =>
    rw [logicalLinesFrom]
    split_ifs
    · exact List.cons_ne_nil _ _
    · split <;> exact List.cons_ne_nil _ _

/-- A lexeme that ends no logical line belongs to the logical line of the next one. -/
theorem logicalLinesFrom_cons {depth : Nat} {l : PlacedLexeme} (ls : List PlacedLexeme)
    (h : ¬ (l.cls = .lineBreak ∧ depth = 0)) :
    ∃ line others, logicalLinesFrom (l.depthAfter depth) ls = line :: others ∧
      logicalLinesFrom depth (l :: ls) = (l :: line) :: others := by
  obtain ⟨line, others, heq⟩ :=
    List.exists_cons_of_ne_nil (logicalLinesFrom_ne_nil (l.depthAfter depth) ls)
  exact ⟨line, others, heq, by rw [logicalLinesFrom, if_neg h, heq]⟩

theorem firstCode?_cons_of_isCode {l : PlacedLexeme} (h : l.isCode = true)
    (line : List PlacedLexeme) : firstCode? (l :: line) = some l.place := by
  simp [firstCode?, h]

theorem firstCode?_cons_of_not_isCode {l : PlacedLexeme} (h : l.isCode = false)
    (line : List PlacedLexeme) : firstCode? (l :: line) = firstCode? line := by
  simp [firstCode?, h]

theorem Lexeme.isCode_eq_false {l : Lexeme}
    (h : l.cls = .gap ∨ l.cls = .comment ∨ l.cls = .lineBreak) : l.isCode = false := by
  rcases h with h | h | h <;> rw [isCode, h]

theorem Lexeme.depthAfter_of_not_isCode {l : Lexeme} (h : l.isCode = false) (depth : Nat) :
    l.depthAfter depth = depth := by
  obtain ⟨cls, text⟩ := l
  cases cls <;> first | rfl | cases h

/-! ### Logical lines and reading -/

namespace Layout

variable {s : Layout} {l : Lexeme} {lines : List Text} {ls : List Lexeme} {tokens : List RawToken}

/-- The places where the logical lines begin that are still to be opened. -/
def openingsFrom (s : Layout) (ls : List Lexeme) : List Position :=
  let logical := logicalLinesFrom s.depth (placedFrom s.place ls)
  (if s.hasCode then logical.tail else logical).filterMap firstCode?

theorem openingsFrom_initial (t : Text) : initial.openingsFrom (lexemes t) = t.openings := rfl

theorem openingsFrom_nil (s : Layout) : s.openingsFrom [] = [] := by
  rw [openingsFrom]
  split_ifs <;> rfl

/-- What is no code and ends no logical line with code opens none. -/
theorem openingsFrom_cons_of_not_isCode (hl : l.isCode = false)
    (hends : l.cls = .lineBreak → s.depth = 0 → s.hasCode = false) (ls : List Lexeme) :
    s.openingsFrom (l :: ls) = (s.pass l.text).openingsFrom ls := by
  by_cases hbreak : l.cls = .lineBreak ∧ s.depth = 0
  · -- a line break after a logical line without code
    have hcode := hends hbreak.1 hbreak.2
    have hnone : firstCode? [⟨l, s.place⟩] = none := firstCode?_cons_of_not_isCode hl []
    rw [openingsFrom, openingsFrom, pass]
    simp only [placedFrom, logicalLinesFrom, hbreak, and_self, if_true, hcode, Bool.false_eq_true,
      if_false]
    rw [List.filterMap_cons_none hnone]
  · obtain ⟨line, others, hrest, hcons⟩ :=
      logicalLinesFrom_cons (l := ⟨l, s.place⟩) (placedFrom (s.place.advance l.text) ls) hbreak
    rw [Lexeme.depthAfter_of_not_isCode hl] at hrest
    rw [openingsFrom, openingsFrom, pass]
    simp only [placedFrom, hcons, hrest, List.tail_cons]
    split_ifs
    · rfl
    · simp only [List.filterMap_cons, firstCode?_cons_of_not_isCode (l := ⟨l, s.place⟩) hl]

theorem openingsFrom_cons_of_gap_or_comment (hcls : l.cls = .gap ∨ l.cls = .comment)
    (ls : List Lexeme) : s.openingsFrom (l :: ls) = (s.pass l.text).openingsFrom ls := by
  have hnot : l.cls ≠ .lineBreak := by
    intro hbreak
    rcases hcls with hcls | hcls <;> rw [hcls] at hbreak <;> cases hbreak
  have hl : l.isCode = false := Lexeme.isCode_eq_false (hcls.imp_right Or.inl)
  exact openingsFrom_cons_of_not_isCode hl (fun hbreak => absurd hbreak hnot) ls

theorem openingsFrom_cons_of_not_ends (hcls : l.cls = .lineBreak)
    (hends : s.depth = 0 → s.hasCode = false) (ls : List Lexeme) :
    s.openingsFrom (l :: ls) = (s.pass l.text).openingsFrom ls :=
  openingsFrom_cons_of_not_isCode (Lexeme.isCode_eq_false (Or.inr (Or.inr hcls))) (fun _ => hends) ls

/-- After the end of a logical line the next one is still to be opened. -/
theorem openingsFrom_cons_of_ends (hcls : l.cls = .lineBreak) (hdepth : s.depth = 0)
    (hcode : s.hasCode = true) (ls : List Lexeme) :
    s.openingsFrom (l :: ls) = (s.endLine l.text).openingsFrom ls := by
  rw [openingsFrom, openingsFrom, endLine]
  simp only [placedFrom, logicalLinesFrom, hcls, hdepth, and_self, if_true, hcode, List.tail_cons,
    Bool.false_eq_true, if_false]

theorem not_lineBreak_of_isCode (hl : l.isCode = true) : l.cls ≠ .lineBreak := by
  intro hcls
  rw [Lexeme.isCode_eq_false (Or.inr (Or.inr hcls))] at hl
  cases hl

/-- A coding lexeme opens a logical line where the one before it has ended. -/
theorem openingsFrom_cons_of_opens (hl : l.isCode = true) (hcode : s.hasCode = false)
    (indents : List Nat) (ls : List Lexeme) :
    s.openingsFrom (l :: ls) = s.place :: (s.afterCode indents l).openingsFrom ls := by
  obtain ⟨line, others, hrest, hcons⟩ :=
    logicalLinesFrom_cons (l := ⟨l, s.place⟩) (placedFrom (s.place.advance l.text) ls)
      fun h : l.cls = .lineBreak ∧ s.depth = 0 => not_lineBreak_of_isCode hl h.1
  rw [openingsFrom, openingsFrom, afterCode]
  simp only [placedFrom, hcons, hrest, hcode, Bool.false_eq_true, if_false, if_true, List.tail_cons]
  rw [List.filterMap_cons_some (firstCode?_cons_of_isCode hl line)]

/-- Another coding lexeme opens none. -/
theorem openingsFrom_cons_of_goesOn (hl : l.isCode = true) (hcode : s.hasCode = true)
    (ls : List Lexeme) :
    s.openingsFrom (l :: ls) = (s.afterCode s.indents l).openingsFrom ls := by
  obtain ⟨line, others, hrest, hcons⟩ :=
    logicalLinesFrom_cons (l := ⟨l, s.place⟩) (placedFrom (s.place.advance l.text) ls)
      fun h : l.cls = .lineBreak ∧ s.depth = 0 => not_lineBreak_of_isCode hl h.1
  rw [openingsFrom, openingsFrom, afterCode]
  simp only [placedFrom, hcons, hrest, hcode, if_true, List.tail_cons]

/-- By each rule of reading, a `NEWLINE` ends a logical line that is open or still to be opened. -/
theorem Reads.count_newline (h : Reads lines s ls tokens) (hs : Nested s.indents) :
    (kinds tokens).count .newline =
      (s.openingsFrom ls).length + if s.hasCode then 1 else 0 := by
  induction h with
  | finish s =>
    rw [kinds_finish, openingsFrom_nil]
    split_ifs <;> simp [List.count_replicate]
  | gap hcls _ ih =>
    rw [openingsFrom_cons_of_gap_or_comment (Or.inl hcls)]
    exact ih hs
  | comment hcls _ ih =>
    rw [openingsFrom_cons_of_gap_or_comment (Or.inr hcls)]
    exact ih hs
  | newline hcls hdepth hcode _ ih =>
    rw [openingsFrom_cons_of_ends hcls hdepth hcode, kinds_cons, hcode]
    show List.count TokenKind.newline (TokenKind.newline :: _) = _
    rw [List.count_cons_self, ih hs]
    rfl
  | nl hcls hends _ ih =>
    rw [openingsFrom_cons_of_not_ends hcls hends]
    exact ih hs
  | @opens _ _ _ _ _ indents hl _ hcode hmarks _ ih =>
    have hnested : Nested indents := hs.of_indentTo hmarks
    rw [kinds_append, kinds_append, List.count_append, List.count_append,
      count_marks rfl hmarks, count_codeTokens rfl, ih hnested,
      openingsFrom_cons_of_opens hl hcode indents, hcode, List.length_cons]
    simp [afterCode]
  | code hl _ hcode _ ih =>
    rw [kinds_append, List.count_append, count_codeTokens rfl, ih hs,
      openingsFrom_cons_of_goesOn hl hcode, hcode]
    simp [afterCode]

end Layout

/-- There is a `NEWLINE` for each logical line of a text that holds code. -/
theorem count_newline_of_tokenize {t : Text} {raw : List RawToken} (h : tokenize t = .ok raw) :
    (Layout.kinds raw).count .newline = t.openings.length :=
  (reads_of_tokenize h).count_newline Layout.nested_zero

end SourceSpans
