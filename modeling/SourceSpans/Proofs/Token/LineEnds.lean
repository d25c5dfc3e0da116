import SourceSpans.Proofs.Text.LineEnds
import SourceSpans.Proofs.Token.Lookahead
import SourceSpans.Proofs.Token.Lexemes

/-!
# Lexemes and line ends

The lexemes of a text are the same, but for the line ends in them, once a carriage return is put before
each line feed (`lexemes_crlf`). Most measures do not look beyond a line end
(`Lexeme.Measures.crlf`), and a line break, a continued line end and a string in triple quotes take the
carriage return with the line feed. A string in a single quote does not: it may hold a line feed only
after a backslash, and a backslash protects the carriage return instead (`Lexeme.closeLength?_crlf`). So
a string that continues on the next line is one lexeme before a bare line feed and breaks off before a
carriage return (`exists_first_continued`).
-/

namespace SourceSpans

open Text (crlf_lineFeed crlf_cons crlf_of_not_mem take_crlf drop_crlf length_crlf_take)

namespace Lexeme

variable {p : Char → Bool} {f : Text → Nat} {c : Char} {t quote : Text} {cls : LexemeClass}
  {marks n : Nat}

/-- The lexeme with a carriage return before each line feed. -/
def crlf (l : Lexeme) : Lexeme := { l with text := Text.crlf l.text }

/-! ### What is measured up to a line end -/

/-- What does not look beyond a line end does not see which line end it is. -/
theorem eq_of_crlf {α : Type} {g : Text → α} (hg : ∀ u x, StopsAt p x → g (u ++ x) = g u)
    (hfeed : p '\n' = false) (hreturn : p '\r' = false) (t : Text) : g (Text.crlf t) = g t := by
  have hsplit := List.takeWhile_append_dropWhile (p := (· != '\n')) (l := t)
  generalize hu : t.takeWhile (· != '\n') = u at hsplit
  generalize hx : t.dropWhile (· != '\n') = x at hsplit
  have hno : '\n' ∉ u := fun hmem => by
    rw [← hu] at hmem
    simpa using List.mem_takeWhile_imp hmem
  have hstops : StopsAt p x ∧ StopsAt p (Text.crlf x) := by
    cases x with
    | nil => exact ⟨stopsAt_nil, stopsAt_nil⟩
    | cons c x =>
      have hne : t.dropWhile (· != '\n') ≠ [] := by rw [hx]; exact List.cons_ne_nil c x
      have hhead := List.head_dropWhile_not (· != '\n') hne
      simp only [hx, List.head_cons, bne_eq_false_iff_eq] at hhead
      subst hhead
      exact ⟨stopsAt_cons.2 hfeed, stopsAt_cons.2 hreturn⟩
  rw [← hsplit, Text.crlf_append, crlf_of_not_mem hno, hg u _ hstops.2, hg u x hstops.1]

theorem Measures.crlf (h : Measures f p) (hfeed : p '\n' = false) (hreturn : p '\r' = false)
    (t : Text) : f (Text.crlf t) = f t :=
  eq_of_crlf h.append hfeed hreturn t

theorem ofLength_crlf (hn : n ≤ t.length) (hfeed : '\n' ∉ t.take n) :
    ofLength cls (Text.crlf t) n = (ofLength cls t n).crlf := by
  have htake := take_crlf t n
  rw [length_crlf_take hfeed hn] at htake
  rw [ofLength, htake]
  rfl

theorem Measures.ofLength_crlf (h : Measures f p) (hfeed : p '\n' = false) (t : Text) :
    ofLength cls (Text.crlf t) (f t) = (ofLength cls t (f t)).crlf := by
  refine Lexeme.ofLength_crlf (h.le t) fun hmem => ?_
  rw [h.of_mem_take hmem] at hfeed
  cases hfeed

/-! ### Strings -/

theorem closeLength?_escape (quote : Text) (c : Char) (t : Text) :
    closeLength? quote ('\\' :: c :: t) = (closeLength? quote t).map (· + 2) := by
  rw [closeLength?]

theorem closeLength?_cons (quote : Text) (h : c ≠ '\\') (t : Text) :
    closeLength? quote (c :: t) =
      if c = '\n' && quote.length != 3 then none
      else if quote.isPrefixOf (c :: t) then some quote.length
      else (closeLength? quote t).map (· + 1) := by
  rw [closeLength?]
  · rintro rfl
    exact absurd rfl h
  · rintro _ _ rfl
    exact absurd rfl h

/-- The length of what belongs to a string after the opening quote, once carriage returns are put in: a
backslash protects a carriage return but not the line feed after it. -/
def crlfLength? (quote body : Text) : Option Nat :=
  if quote.length ≠ 3 ∧ '\n' ∈ body then none else some (Text.crlf body).length

theorem crlfLength?_cons (quote : Text) (h : c ≠ '\n') (body : Text) :
    crlfLength? quote (c :: body) = (crlfLength? quote body).map (· + 1) := by
  simp only [crlfLength?, List.mem_cons, Ne.symm h, false_or, crlf_cons h, List.length_cons]
  split_ifs <;> rfl

theorem isPrefixOf_crlf (hquote : quote ∈ quotes) (t : Text) :
    quote.isPrefixOf (Text.crlf t) = quote.isPrefixOf t := by
  exact eq_of_crlf (p := isOpeningPart)
    (fun u x hx => isPrefixOf_append_of_stopsAt (isOpeningPart_of_mem_quotes hquote) hx) rfl rfl t

/-- Quotes are made of quote characters. -/
theorem isPrefixOf_cons_eq_false (hquote : quote ∈ quotes) (h : isOpeningPart c = false) (t : Text) :
    quote.isPrefixOf (c :: t) = false := by
  have hne : ∀ w ∈ quotes, w.isPrefixOf [] = false := by decide
  have happend := isPrefixOf_append_of_stopsAt (u := []) (isOpeningPart_of_mem_quotes hquote)
    (stopsAt_cons (x := t) |>.2 h)
  rwa [List.nil_append, hne quote hquote] at happend

/-- A line feed belongs to a string in triple quotes only. -/
theorem closeLength?_lineFeed (hquote : quote ∈ quotes) (t : Text) :
    closeLength? quote ('\n' :: t) =
      if quote.length = 3 then (closeLength? quote t).map (· + 1) else none := by
  rw [closeLength?_cons quote (by decide), isPrefixOf_cons_eq_false hquote rfl]
  by_cases hlength : quote.length = 3 <;> simp [hlength]

theorem closeLength?_carriageReturn (hquote : quote ∈ quotes) (t : Text) :
    closeLength? quote ('\r' :: t) = (closeLength? quote t).map (· + 1) := by
  rw [closeLength?_cons quote (by decide), isPrefixOf_cons_eq_false hquote rfl]
  rfl

theorem closeLength?_crlf (hquote : quote ∈ quotes) (t : Text) :
    closeLength? quote (Text.crlf t) =
      (closeLength? quote t).bind fun n => crlfLength? quote (t.take n) := by
  fun_induction closeLength? quote t with
  | case1 => rfl
  | case2 => rfl
  | case3 c t ih =>
    -- the backslash protects the carriage return, and the line feed after it is read on its own
    by_cases hc : c = '\n'
    · subst hc
      rw [crlf_cons (by decide), crlf_lineFeed, closeLength?_escape, closeLength?_lineFeed hquote, ih]
      by_cases hlength : quote.length = 3
      · cases closeLength? quote t <;> simp [hlength, crlfLength?, crlf_cons]
      · cases closeLength? quote t <;> simp [hlength, crlfLength?]
    · rw [crlf_cons (by decide), crlf_cons hc, closeLength?_escape, ih]
      cases closeLength? quote t with
      | none => rfl
      | some n =>
        show (crlfLength? quote (t.take n)).map (· + 2) = crlfLength? quote ('\\' :: c :: t.take n)
        rw [crlfLength?_cons quote (by decide), crlfLength?_cons quote hc, Option.map_map]
        rfl
  | case4 c t h₁ h₂ hfeed =>
    -- a bare line feed breaks off a string in a single quote, with or without a carriage return
    rw [Bool.and_eq_true, decide_eq_true_eq, bne_iff_ne] at hfeed
    obtain ⟨rfl, hlength⟩ := hfeed
    rw [crlf_lineFeed, closeLength?_carriageReturn hquote, closeLength?_lineFeed hquote,
      if_neg hlength]
    rfl
  | case5 c t h₁ h₂ hfeed hprefix =>
    -- the closing quote, in which there is no line feed
    have hc : isOpeningPart c = true := by
      by_contra hno
      rw [isPrefixOf_cons_eq_false hquote (Bool.eq_false_iff.2 hno)] at hprefix
      cases hprefix
    have hslash : c ≠ '\\' := by
      rintro rfl
      cases hc
    have hc' : c ≠ '\n' := by
      rintro rfl
      cases hc
    have htake : (c :: t).take quote.length = quote :=
      (List.prefix_iff_eq_take.1 (List.isPrefixOf_iff_prefix.1 hprefix)).symm
    have hno : ∀ w ∈ quotes, '\n' ∉ w := by decide
    rw [← isPrefixOf_crlf hquote, crlf_cons hc'] at hprefix
    rw [crlf_cons hc', closeLength?_cons quote hslash, if_neg hfeed, if_pos hprefix]
    show some quote.length = crlfLength? quote ((c :: t).take quote.length)
    rw [htake, crlfLength?, if_neg fun h => hno quote hquote h.2, crlf_of_not_mem (hno quote hquote)]
  | case6 c t h₁ h₂ hfeed hprefix ih =>
    by_cases hc : c = '\n'
    · subst hc
      have hlength : quote.length = 3 := by simpa using hfeed
      rw [crlf_lineFeed, closeLength?_carriageReturn hquote, closeLength?_lineFeed hquote,
        if_pos hlength, ih]
      cases closeLength? quote t <;> simp [hlength, crlfLength?]
    · have hslash : c ≠ '\\' := by
        rintro rfl
        cases t with
        | nil => exact h₁ rfl rfl
        | cons d t => exact h₂ d t rfl rfl
      rw [← isPrefixOf_crlf hquote, crlf_cons hc] at hprefix
      rw [crlf_cons hc, closeLength?_cons quote hslash, if_neg hfeed, if_neg hprefix, ih]
      cases closeLength? quote t with
      | none => rfl
      | some n => exact (crlfLength?_cons quote hc (t.take n)).symm

/-- What an opening is made of. -/
theorem opening?_eq_some (h : opening? t = some (marks, quote)) :
    marks = (t.takeWhile isStringMark).length ∧ marks ≤ 2 ∧ quote ∈ quotes ∧
      quote <+: t.drop marks ∧ quote? (t.drop marks) = some quote := by
  simp only [opening?] at h
  split_ifs at h with hle
  obtain ⟨quote', hquote, heq⟩ := Option.map_eq_some_iff.1 h
  obtain ⟨rfl, rfl⟩ := Prod.mk.inj heq
  have hfind := hquote
  rw [quote?_eq] at hfind
  have hprefix := List.find?_some hfind
  exact ⟨rfl, hle, List.mem_of_find?_eq_some hfind, List.isPrefixOf_iff_prefix.1 hprefix, hquote⟩

theorem opening?_crlf (t : Text) : opening? (Text.crlf t) = opening? t :=
  eq_of_crlf (p := isOpeningPart) (fun _ _ hx => opening?_append hx) rfl rfl t

/-- A string in a single quote that goes on on the next line, after a backslash. -/
def ContinuesOnNextLine (l : Lexeme) : Prop :=
  l.cls = .string ∧ '\n' ∈ l.text ∧ (opening? l.text).map (·.2.length) = some 1

instance (l : Lexeme) : Decidable l.ContinuesOnNextLine :=
  inferInstanceAs (Decidable (_ ∧ _ ∧ _))

/-- A beginning of a text opens with the same quote if it holds it. -/
theorem quote?_of_prefix {s : Text} (hs : s <+: t) (h : quote? t = some quote) (hquote : quote <+: s) :
    quote? s = some quote := by
  rw [quote?_eq, List.find?_eq_some_iff_append] at h ⊢
  obtain ⟨-, before, after, heq, hno⟩ := h
  refine ⟨List.isPrefixOf_iff_prefix.2 hquote, before, after, heq, fun other hother => ?_⟩
  have hnot := hno other hother
  rw [Bool.not_eq_true', Bool.eq_false_iff, ne_eq, List.isPrefixOf_iff_prefix] at hnot ⊢
  exact fun hpre => hnot (hpre.trans hs)

theorem takeWhile_isStringMark_quote (hquote : quote ∈ quotes) (t : Text) :
    (quote ++ t).takeWhile isStringMark = [] := by
  have hquotes : ∀ w ∈ quotes, w ≠ [] ∧ w.any isStringMark = false := by decide
  obtain ⟨hne, hno⟩ := hquotes quote hquote
  obtain ⟨c, quote', rfl⟩ := List.exists_cons_of_ne_nil hne
  rw [List.any_cons, Bool.or_eq_false_iff] at hno
  rw [List.cons_append, List.takeWhile_cons, hno.1]
  rfl

/-- The opening is that of every beginning of the text that holds it. -/
theorem opening?_take (h : opening? t = some (marks, quote)) (n : Nat) :
    opening? (t.take (marks + quote.length + n)) = some (marks, quote) := by
  obtain ⟨hmarks, hle, hmem, ⟨rest, hrest⟩, hquote⟩ := opening?_eq_some h
  have hsplit : t.takeWhile isStringMark ++ (quote ++ rest) = t := by
    rw [hrest, hmarks]
    exact List.prefix_iff_eq_append.1 (List.takeWhile_prefix isStringMark)
  have hmark : ∀ c ∈ t.takeWhile isStringMark, isStringMark c = true := fun c hc =>
    List.mem_takeWhile_imp hc
  rw [← hrest] at hquote
  generalize t.takeWhile isStringMark = front at hmarks hsplit hmark
  subst hmarks hsplit
  have hbeginning : quote ++ rest.take n <+: quote ++ rest :=
    (List.prefix_append_right_inj quote).2 (List.take_prefix n rest)
  have hquote' := quote?_of_prefix hbeginning hquote (List.prefix_append quote _)
  have htake : (front ++ (quote ++ rest)).take (front.length + quote.length + n) =
      front ++ (quote ++ rest.take n) := by
    rw [Nat.add_assoc, List.take_length_add_append, List.take_length_add_append]
  have hwhile : (front ++ (quote ++ rest.take n)).takeWhile isStringMark = front := by
    rw [List.takeWhile_append_of_pos hmark, takeWhile_isStringMark_quote hmem, List.append_nil]
  rw [htake, opening?, hwhile]
  simp [hle, hquote']

/-- An opening holds no line feed. -/
theorem lineFeed_not_mem_opening (h : opening? t = some (marks, quote)) :
    '\n' ∉ t.take (marks + quote.length) := by
  obtain ⟨hmarks, -, hmem, hprefix, -⟩ := opening?_eq_some h
  have hquotes : ∀ w ∈ quotes, '\n' ∉ w := by decide
  rw [List.take_add, ← List.prefix_iff_eq_take.1 hprefix, hmarks,
    ← List.prefix_iff_eq_take.1 (List.takeWhile_prefix isStringMark), List.mem_append, not_or]
  refine ⟨fun hfeed => ?_, hquotes quote hmem⟩
  cases List.mem_takeWhile_imp hfeed

theorem stringAt_of_some (h : closeLength? quote (t.drop (marks + quote.length)) = some n) :
    stringAt t marks quote = ofLength .string t (marks + quote.length + n) := by
  simp only [stringAt, h]

theorem stringAt_of_none (h : closeLength? quote (t.drop (marks + quote.length)) = none) :
    stringAt t marks quote = ofLength .broken t (marks + quote.length) := by
  simp only [stringAt, h]

section string

variable (h : opening? t = some (marks, quote))

include h

theorem length_crlf_opening :
    (Text.crlf (t.take (marks + quote.length))).length = marks + quote.length :=
  length_crlf_take (lineFeed_not_mem_opening h) (le_length_of_opening?_eq_some h)

/-- How a string closes after carriage returns are put in. -/
theorem closeLength?_drop_crlf :
    closeLength? quote ((Text.crlf t).drop (marks + quote.length)) =
      (closeLength? quote (t.drop (marks + quote.length))).bind fun n =>
        crlfLength? quote ((t.drop (marks + quote.length)).take n) := by
  have hdrop := drop_crlf t (marks + quote.length)
  rw [length_crlf_opening h] at hdrop
  rw [hdrop, closeLength?_crlf (opening?_eq_some h).2.2.1]

theorem continuesOnNextLine_iff
    (hn : closeLength? quote (t.drop (marks + quote.length)) = some n) :
    (stringAt t marks quote).ContinuesOnNextLine ↔
      quote.length ≠ 3 ∧ '\n' ∈ (t.drop (marks + quote.length)).take n := by
  have hlengths : ∀ w ∈ quotes, w.length = 1 ∨ w.length = 3 := by decide
  have hlength := hlengths quote (opening?_eq_some h).2.2.1
  have htext : '\n' ∈ t.take (marks + quote.length + n) ↔
      '\n' ∈ (t.drop (marks + quote.length)).take n := by
    rw [List.take_add, List.mem_append, or_iff_right (lineFeed_not_mem_opening h)]
  rw [stringAt_of_some hn, ContinuesOnNextLine]
  show _ ∧ '\n' ∈ t.take (marks + quote.length + n) ∧
    (opening? (t.take (marks + quote.length + n))).map _ = some 1 ↔ _
  rw [htext, opening?_take h, Option.map_some, Option.some_inj]
  constructor
  · rintro ⟨-, hfeed, hone⟩
    change quote.length = 1 at hone
    exact ⟨by omega, hfeed⟩
  · rintro ⟨hthree, hfeed⟩
    exact ⟨rfl, hfeed, hlength.resolve_right hthree⟩

/-- A string that does not continue on the next line stays what it is. -/
theorem stringAt_crlf (hno : ¬ (stringAt t marks quote).ContinuesOnNextLine) :
    stringAt (Text.crlf t) marks quote = (stringAt t marks quote).crlf := by
  have hclose := closeLength?_drop_crlf h
  rcases hn : closeLength? quote (t.drop (marks + quote.length)) with _ | n <;> rw [hn] at hclose
  · rw [stringAt_of_none hclose, stringAt_of_none hn]
    exact ofLength_crlf (le_length_of_opening?_eq_some h) (lineFeed_not_mem_opening h)
  · rw [continuesOnNextLine_iff h hn] at hno
    rw [Option.bind_some, crlfLength?, if_neg hno] at hclose
    have htake := take_crlf t (marks + quote.length + n)
    rw [List.take_add, Text.crlf_append, List.length_append, length_crlf_opening h] at htake
    rw [stringAt_of_some hclose, stringAt_of_some hn, ofLength, htake, ← Text.crlf_append,
      ← List.take_add]
    rfl

/-- A string that continues on the next line breaks off. -/
theorem cls_stringAt_crlf (hcontinues : (stringAt t marks quote).ContinuesOnNextLine) :
    (stringAt (Text.crlf t) marks quote).cls = .broken := by
  have hclose := closeLength?_drop_crlf h
  rcases hn : closeLength? quote (t.drop (marks + quote.length)) with _ | n <;> rw [hn] at hclose
  · rw [stringAt_of_none hclose]
    rfl
  · rw [continuesOnNextLine_iff h hn] at hcontinues
    rw [Option.bind_some, crlfLength?, if_pos hcontinues] at hclose
    rw [stringAt_of_none hclose]
    rfl

end string

/-! ### The first lexeme -/

theorem head?_crlf_ne (t : Text) : (Text.crlf t).head? ≠ some '\n' := by
  cases t with
  | nil => exact (Option.some_ne_none '\n').symm
  | cons c t =>
    rw [Text.crlf]
    split_ifs with hc
    · exact fun h => absurd (Option.some.inj h) (by decide)
    · exact fun h => hc (Option.some.inj h)

/-- Where no line end is continued, a gap is a run of blanks. -/
theorem gapLength_eq (h : ∀ rest, t ≠ '\\' :: '\n' :: rest)
    (h' : ∀ rest, t ≠ '\\' :: '\r' :: '\n' :: rest) :
    gapLength t = (t.takeWhile isGap).length := by
  unfold gapLength
  split
  · exact absurd rfl (h _)
  · exact absurd rfl (h' _)
  · rfl

theorem lineBreakLength_eq_zero (hfeed : c ≠ '\n') (hreturn : c ≠ '\r') (t : Text) :
    lineBreakLength (c :: t) = 0 := by
  unfold lineBreakLength
  split
  · rename_i heq
    exact absurd (List.cons_eq_cons.1 heq).1 hfeed
  · rename_i heq
    exact absurd (List.cons_eq_cons.1 heq).1 hreturn
  · rfl

theorem measures_blanks : Measures (fun t => (t.takeWhile isGap).length) isGap :=
  .takeWhile fun _ h => h

theorem gapLength_crlf (hreturn : '\r' ∉ c :: t) (hc : c ≠ '\n')
    (hcontinued : ∀ rest, c :: t ≠ '\\' :: '\n' :: rest) :
    gapLength (c :: Text.crlf t) = gapLength (c :: t) ∧
      gapLength (c :: t) = ((c :: t).takeWhile isGap).length := by
  have hgap : gapLength (c :: t) = ((c :: t).takeWhile isGap).length := by
    refine gapLength_eq hcontinued fun rest h => hreturn ?_
    rw [h]
    simp
  have hcrlf := measures_blanks.crlf rfl rfl (c :: t)
  rw [crlf_cons hc] at hcrlf
  refine ⟨?_, hgap⟩
  rw [hgap, gapLength_eq, hcrlf]
  · rintro rest heq
    obtain ⟨-, hrest⟩ := List.cons_eq_cons.1 heq
    exact head?_crlf_ne t (by rw [hrest]; rfl)
  · rintro rest heq
    obtain ⟨rfl, hrest⟩ := List.cons_eq_cons.1 heq
    cases t with
    | nil => cases hrest
    | cons d t =>
      by_cases hd : d = '\n'
      · exact hcontinued t (by rw [hd])
      · rw [crlf_cons hd] at hrest
        exact hreturn (by rw [(List.cons_eq_cons.1 hrest).1]; simp)

/-- What is measured at the start of a text is the same with carriage returns put in, unless the text
starts with a line end or a continued one. -/
structure SameMeasures (t : Text) : Prop where
  gap : gapLength (Text.crlf t) = gapLength t
  gap_eq : gapLength t = (t.takeWhile isGap).length
  lineBreak : lineBreakLength (Text.crlf t) = 0
  lineBreak_eq : lineBreakLength t = 0
  length_pos : 1 ≤ t.length
  feed : '\n' ∉ t.take 1

theorem sameMeasures_cons (hreturn : '\r' ∉ c :: t) (hc : c ≠ '\n')
    (hcontinued : ∀ rest, c :: t ≠ '\\' :: '\n' :: rest) : SameMeasures (c :: t) := by
  obtain ⟨hgap, hgap_eq⟩ := gapLength_crlf hreturn hc hcontinued
  have hc' : c ≠ '\r' := fun h => hreturn (by rw [h]; exact List.mem_cons_self)
  have hcrlf := crlf_cons hc t
  refine ⟨by rw [hcrlf, hgap], hgap_eq, by rw [hcrlf]; exact lineBreakLength_eq_zero hc hc' _,
    lineBreakLength_eq_zero hc hc' t, Nat.succ_le_succ (Nat.zero_le _), ?_⟩
  simpa using Ne.symm hc

/-- The first lexeme does not depend on the line ends, unless it is a string that continues on the next
line. -/
theorem SameMeasures.first_crlf (h : SameMeasures t) (hno : ¬ (first t).ContinuesOnNextLine) :
    first (Text.crlf t) = (first t).crlf := by
  have hcomment := measures_commentLength.crlf rfl rfl t
  have hnumber := measures_numberLength.crlf rfl rfl t
  have hname := measures_nameLength.crlf rfl rfl t
  have hoperator := measures_operatorLength.crlf rfl rfl t
  unfold first at hno ⊢
  rw [h.lineBreak_eq] at hno
  rw [h.gap, h.lineBreak, h.lineBreak_eq, hcomment, opening?_crlf, hnumber, hname, hoperator,
    if_neg (not_not.2 rfl)]
  rw [if_neg (not_not.2 rfl)] at hno ⊢
  rcases hopening : opening? t with _ | ⟨marks, quote⟩ <;> simp only [hopening] at hno ⊢
  · split_ifs
    · rw [h.gap_eq]
      exact measures_blanks.ofLength_crlf rfl t
    · exact measures_commentLength.ofLength_crlf rfl t
    · exact measures_numberLength.ofLength_crlf rfl t
    · exact measures_nameLength.ofLength_crlf rfl t
    · exact measures_operatorLength.ofLength_crlf rfl t
    · exact ofLength_crlf h.length_pos h.feed
  · split_ifs at hno ⊢
    · rw [h.gap_eq]
      exact measures_blanks.ofLength_crlf rfl t
    · exact measures_commentLength.ofLength_crlf rfl t
    · exact stringAt_crlf hopening hno

/-- A string that continues on the next line breaks off once carriage returns are put in. -/
theorem SameMeasures.cls_first_crlf (h : SameMeasures t)
    (hcontinues : (first t).ContinuesOnNextLine) : (first (Text.crlf t)).cls = .broken := by
  have hcomment := measures_commentLength.crlf rfl rfl t
  unfold first at hcontinues ⊢
  rw [h.lineBreak_eq] at hcontinues
  rw [h.gap, h.lineBreak, hcomment, opening?_crlf]
  rw [if_neg (not_not.2 rfl)] at hcontinues ⊢
  rcases hopening : opening? t with _ | ⟨marks, quote⟩ <;> simp only [hopening] at hcontinues ⊢
  · split_ifs at hcontinues <;> exact nomatch hcontinues.1
  · split_ifs at hcontinues ⊢
    · exact nomatch hcontinues.1
    · exact nomatch hcontinues.1
    · exact cls_stringAt_crlf hopening hcontinues

/-- Broken characters end no line. -/
theorem SameMeasures.lineFeed_not_mem (h : SameMeasures t) (hcls : (first t).cls = .broken) :
    '\n' ∉ (first t).text := by
  unfold first at hcls ⊢
  rcases hopening : opening? t with _ | ⟨marks, quote⟩ <;> simp only [hopening] at hcls ⊢
  · split_ifs at hcls ⊢
    case neg => exact h.feed
    all_goals cases hcls
  · split_ifs at hcls ⊢
    · cases hcls
    · cases hcls
    · cases hcls
    · rcases hn : closeLength? quote (t.drop (marks + quote.length)) with _ | n
      · rw [stringAt_of_none hn]
        exact lineFeed_not_mem_opening hopening
      · rw [stringAt_of_some hn] at hcls
        cases hcls

/-- A text starts with a line end, with a continued one, or with something else that is measured. -/
theorem sameMeasures_or_lineEnd (hreturn : '\r' ∉ t) (hne : t ≠ []) :
    SameMeasures t ∨ (∃ rest, t = '\n' :: rest) ∨ ∃ rest, t = '\\' :: '\n' :: rest := by
  obtain ⟨c, t, rfl⟩ := List.exists_cons_of_ne_nil hne
  by_cases hc : c = '\n'
  · exact Or.inr (Or.inl ⟨t, by rw [hc]⟩)
  by_cases hcontinued : ∃ rest, c :: t = '\\' :: '\n' :: rest
  · exact Or.inr (Or.inr hcontinued)
  · exact Or.inl (sameMeasures_cons hreturn hc fun rest h => hcontinued ⟨rest, h⟩)

theorem lineFeed_not_mem_of_cls_eq_broken (hreturn : '\r' ∉ t) (hne : t ≠ [])
    (hcls : (first t).cls = .broken) : '\n' ∉ (first t).text := by
  rcases sameMeasures_or_lineEnd hreturn hne with h | ⟨rest, rfl⟩ | ⟨rest, rfl⟩
  · exact h.lineFeed_not_mem hcls
  · cases hcls
  · cases hcls

/-- **The first lexeme does not depend on the line ends**, unless it is a string that continues on the
next line. This one breaks off once carriage returns are put in. -/
theorem first_crlf (hreturn : '\r' ∉ t) (hne : t ≠ []) :
    (¬ (first t).ContinuesOnNextLine → first (Text.crlf t) = (first t).crlf) ∧
      ((first t).ContinuesOnNextLine → (first (Text.crlf t)).cls = .broken) := by
  rcases sameMeasures_or_lineEnd hreturn hne with h | ⟨rest, rfl⟩ | ⟨rest, rfl⟩
  · exact ⟨h.first_crlf, h.cls_first_crlf⟩
  · exact ⟨fun _ => rfl, fun h => nomatch h.1⟩
  · exact ⟨fun _ => rfl, fun h => nomatch h.1⟩

end Lexeme

/-! ### All lexemes -/

variable {t : Text}

theorem not_mem_drop {c : Char} (h : c ∉ t) (n : Nat) : c ∉ t.drop n := fun hmem =>
  h (List.mem_of_mem_drop hmem)

/-- A lexeme that does not continue on the next line is followed by the same text. -/
theorem lexemes_crlf_cons (hreturn : '\r' ∉ t) (hne : t ≠ [])
    (hno : ¬ (Lexeme.first t).ContinuesOnNextLine) :
    lexemes (Text.crlf t) = (Lexeme.first t).crlf ::
      lexemes (Text.crlf (t.drop (Lexeme.first t).text.length)) := by
  have hdrop := drop_crlf t (Lexeme.first t).text.length
  rw [take_length_first] at hdrop
  have hlexemes := lexemes_of_ne_nil (mt Text.crlf_eq_nil_iff.1 hne)
  rw [(Lexeme.first_crlf hreturn hne).1 hno] at hlexemes
  rw [hlexemes, ← hdrop]
  rfl

/-- **The lexemes of a text do not depend on its line ends**, if no string continues on the next
line. -/
theorem lexemes_crlf (hreturn : '\r' ∉ t) (h : ∀ l ∈ lexemes t, ¬ l.ContinuesOnNextLine) :
    lexemes (Text.crlf t) = (lexemes t).map Lexeme.crlf := by
  induction t using lexemes_induction with
  | nil => rfl
  | cons t hne heq ih =>
    rw [heq, List.forall_mem_cons] at h
    rw [lexemes_crlf_cons hreturn hne h.1, ih (not_mem_drop hreturn _) h.2, heq, List.map_cons]

theorem lineFeed_not_mem_of_broken (hreturn : '\r' ∉ t) :
    ∀ l ∈ lexemes t, l.cls = .broken → '\n' ∉ l.text := by
  induction t using lexemes_induction with
  | nil => nofun
  | cons t hne heq ih =>
    rw [heq, List.forall_mem_cons]
    exact ⟨Lexeme.lineFeed_not_mem_of_cls_eq_broken hreturn hne, ih (not_mem_drop hreturn _)⟩

/-- Up to the first string that continues on the next line the lexemes are the same. -/
theorem exists_first_continued (hreturn : '\r' ∉ t) (h : ∃ l ∈ lexemes t, l.ContinuesOnNextLine) :
    ∃ before l after l' after', lexemes t = before ++ l :: after ∧
      lexemes (Text.crlf t) = before.map Lexeme.crlf ++ l' :: after' ∧
      l.ContinuesOnNextLine ∧ l'.cls = .broken ∧ l'.text ≠ [] := by
  induction t using lexemes_induction with
  | nil =>
    obtain ⟨l, hl, -⟩ := h
    cases hl
  | cons t hne heq ih =>
    by_cases hfirst : (Lexeme.first t).ContinuesOnNextLine
    · have hne' : Text.crlf t ≠ [] := mt Text.crlf_eq_nil_iff.1 hne
      exact ⟨[], _, _, _, _, heq, lexemes_of_ne_nil hne', hfirst,
        (Lexeme.first_crlf hreturn hne).2 hfirst, Lexeme.text_first_ne_nil hne'⟩
    · have hrest : ∃ l ∈ lexemes (t.drop (Lexeme.first t).text.length),
          l.ContinuesOnNextLine := by
        obtain ⟨l, hl, hcontinues⟩ := h
        rw [heq] at hl
        rcases List.mem_cons.1 hl with rfl | hl
        · exact absurd hcontinues hfirst
        · exact ⟨l, hl, hcontinues⟩
      obtain ⟨before, l, after, l', after', hbefore, hbefore', hl⟩ :=
        ih (not_mem_drop hreturn _) hrest
      refine ⟨Lexeme.first t :: before, l, after, l', after', ?_, ?_, hl⟩
      · rw [heq, hbefore]
        rfl
      · rw [lexemes_crlf_cons hreturn hne hfirst, hbefore']
        rfl

end SourceSpans
