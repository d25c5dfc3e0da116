import Mathlib.Tactic.Common
import SourceSpans.Proofs.Text.Identifiers
import SourceSpans.Proofs.Token.Lookahead
import SourceSpans.Proofs.Token.Lexemes

/-!
# The pieces of an identifier

Names are read in their ASCII form only, so the lexemes at the start of an identifier are pieces of
it: names, numbers, and single other characters (`Lexeme.IsPiece`). The pieces end where the
identifier ends (`exists_pieces`), since no other lexeme has a character of identifiers in front and a
name takes no character but these. A number may take a point or a sign, though, and then it runs on
into the text after the identifier (`NumberRunsOn`), if this starts with one
(`NumberRunsOnAfter.exists_head`).
-/

namespace SourceSpans

/-- A text that no identifier before it goes on with, and which does not make a string of it: it is
empty or starts with a character that may not stand in an identifier and is no quote. -/
def Text.EndsIdentifier (rest : Text) : Prop :=
  ∀ c ∈ rest.head?, Text.isXidContinue c = false ∧ c ≠ '\'' ∧ c ≠ '"'

instance : (rest : Text) → Decidable rest.EndsIdentifier
  | [] => .isTrue nofun
  | c :: _ =>
      decidable_of_iff (Text.isXidContinue c = false ∧ c ≠ '\'' ∧ c ≠ '"')
        (by simp [Text.EndsIdentifier])

theorem Text.EndsIdentifier.stopsAt {rest : Text} (h : rest.EndsIdentifier) :
    Lexeme.StopsAt Text.isXidContinue rest := fun c hc => (h c hc).1

namespace Lexeme

open Text (isXidContinue isIdentifierStart)

variable {c : Char} {s rest t : Text}

/-! ### Characters -/

theorem toNat_lt_of_isNamePart (h : isNamePart c = true) : c.toNat < 128 := by
  unfold isNamePart Char.isAlphanum Char.isAlpha Char.isUpper Char.isLower Char.isDigit at h
  simp only [Bool.or_eq_true, Bool.and_eq_true, decide_eq_true_eq, beq_iff_eq, ge_iff_le,
    UInt32.le_iff_toNat_le] at h
  rcases h with ((⟨-, h⟩ | ⟨-, h⟩) | ⟨-, h⟩) | rfl
  · exact Nat.lt_of_le_of_lt h (by decide)
  · exact Nat.lt_of_le_of_lt h (by decide)
  · exact Nat.lt_of_le_of_lt h (by decide)
  · decide

/-- What holds of the first 128 code points holds of each character among them. -/
theorem of_toNat_lt {p : Char → Prop} (h : ∀ n < 128, p (Char.ofNat n)) (hc : c.toNat < 128) :
    p c := by
  have hp := h c.toNat hc
  rwa [Char.ofNat_toNat] at hp

/-- Of the first 128 code points, those that may stand in a name may stand in an identifier. -/
theorem isNamePart_eq_of_toNat_lt (hc : c.toNat < 128) : isNamePart c = isXidContinue c :=
  of_toNat_lt (p := fun c => isNamePart c = isXidContinue c) (by decide +kernel) hc

theorem isXidContinue_of_isNamePart (h : isNamePart c = true) : isXidContinue c = true := by
  rwa [← isNamePart_eq_of_toNat_lt (toNat_lt_of_isNamePart h)]

theorem isNameStart_of_isIdentifierStart (h : isIdentifierStart c = true)
    (hc : c.toNat < 128) : isNameStart c = true := by
  have heq : isNameStart c = isIdentifierStart c :=
    of_toNat_lt (p := fun c => isNameStart c = isIdentifierStart c) (by decide +kernel) hc
  rwa [heq]

theorem isDigit_eq_false_of_isNameStart (h : isNameStart c = true) : c.isDigit = false :=
  of_toNat_lt (p := fun c => isNameStart c = true → c.isDigit = false) (by decide +kernel)
    (toNat_lt_of_isNamePart (isNamePart_of_isNameStart h)) h

/-- A character of an identifier starts none of the lexemes that are tried before names and numbers,
nor an operator. -/
theorem stopsAt_of_isXidContinue (h : isXidContinue c = true) (t : Text) :
    gapLength (c :: t) = 0 ∧ lineBreakLength (c :: t) = 0 ∧ commentLength (c :: t) = 0 ∧
      operatorLength (c :: t) = 0 := by
  have hne : ∀ d, isXidContinue d = false → c ≠ d := by
    rintro d hd rfl
    rw [hd] at h
    cases h
  have hlayout : layoutStarts.all (!isXidContinue ·) = true := by decide +kernel
  obtain ⟨hgap, hbreak, hcomment⟩ := layoutLengths_eq_zero (t := t) (c := c) (by
    intro hmem
    have hno := List.all_eq_true.1 hlayout c hmem
    exact hne c (by simpa using hno) rfl)
  refine ⟨hgap, hbreak, hcomment, measures_operatorLength.eq_zero_of_stopsAt (stopsAt_cons.2 ?_)⟩
  have hoperators : ∀ op ∈ operators, op.all (!isXidContinue ·) = true := by decide +kernel
  refine Bool.eq_false_iff.2 fun hpart => ?_
  obtain ⟨op, hop, hc⟩ := List.any_eq_true.1 hpart
  have hno := List.all_eq_true.1 (hoperators op hop) c (by simpa using hc)
  exact hne c (by simpa using hno) rfl

/-! ### The first lexeme -/

theorem isXidContinue_of_isStringMark (h : isStringMark c = true) : isXidContinue c = true := by
  have hmarks : "rRbBuUfF".toList.all isXidContinue = true := by decide +kernel
  exact List.all_eq_true.1 hmarks c (by simpa [isStringMark] using h)

theorem quote?_eq_none (h : ∀ d ∈ t.head?, d ≠ '\'' ∧ d ≠ '"') : quote? t = none := by
  unfold quote?
  split
  · exact absurd rfl (h '\'' rfl).1
  · exact absurd rfl (h '"' rfl).2
  · exact absurd rfl (h '\'' rfl).1
  · exact absurd rfl (h '"' rfl).2
  · rfl

/-- No string opens inside an identifier. -/
theorem opening?_append_eq_none (hs : ∀ d ∈ s, isXidContinue d = true)
    (hrest : rest.EndsIdentifier) : opening? (s ++ rest) = none := by
  have hmarks := hrest.stopsAt.mono fun _ => isXidContinue_of_isStringMark
  have hdrop : (s ++ rest).drop (s.takeWhile isStringMark).length =
      s.drop (s.takeWhile isStringMark).length ++ rest :=
    List.drop_append_of_le_length (List.takeWhile_prefix _).length_le
  have hquote : quote? ((s ++ rest).drop (s.takeWhile isStringMark).length) = none := by
    rw [hdrop]
    refine quote?_eq_none fun d hd => ?_
    rw [List.head?_append, Option.mem_def, Option.or_eq_some_iff] at hd
    rcases hd with hd | ⟨-, hd⟩
    · have hpart := hs d (List.mem_of_mem_drop (List.mem_of_mem_head? hd))
      refine ⟨?_, ?_⟩ <;> (rintro rfl; exact absurd hpart (by decide +kernel))
    · exact (hrest d hd).2
  rw [opening?, takeWhile_append_of_stopsAt hmarks]
  simp [hquote]

/-- At the start of what an identifier goes on with stands a number, a name or a broken character. -/
theorem first_of_identifierPart (hs : ∀ d ∈ s, isXidContinue d = true) (hne : s ≠ [])
    (hrest : rest.EndsIdentifier) :
    first (s ++ rest) =
      if numberLength (s ++ rest) ≠ 0 then ofLength .number (s ++ rest) (numberLength (s ++ rest))
      else if nameLength (s ++ rest) ≠ 0 then ofLength .name (s ++ rest) (nameLength (s ++ rest))
      else ofLength .broken (s ++ rest) 1 := by
  have hopening := opening?_append_eq_none hs hrest
  obtain ⟨c, s, rfl⟩ := List.exists_cons_of_ne_nil hne
  obtain ⟨hgap, hbreak, hcomment, hoperator⟩ :=
    stopsAt_of_isXidContinue (hs c List.mem_cons_self) (s ++ rest)
  rw [List.cons_append] at hopening ⊢
  rw [first, if_neg (by simp [hgap]), if_neg (by simp [hbreak]), if_neg (by simp [hcomment]), hopening]
  simp [hoperator]

/-! ### Pieces -/

/-- A lexeme that can be a piece of an identifier: a name or a number of ASCII letters and digits, or a
single other character. -/
structure IsPiece (l : Lexeme) : Prop where
  text_ne_nil : l.text ≠ []
  cases : l.cls = .broken ∧ l.text.length = 1 ∨
    (l.cls = .name ∨ l.cls = .number) ∧ ∀ c ∈ l.text, isNamePart c = true

/-- A character of a number is one of a name, or the point or a sign, which are in no identifier. -/
theorem isNumberPart_cases (h : isNumberPart c = true) :
    isNamePart c = true ∧ isXidContinue c = true ∨
      (c = '.' ∨ c = '+' ∨ c = '-') ∧ isXidContinue c = false := by
  simp only [isNumberPart, Bool.or_eq_true, beq_iff_eq] at h
  rcases h with ((h | rfl) | rfl) | rfl
  · exact Or.inl ⟨h, isXidContinue_of_isNamePart h⟩
  · exact Or.inr ⟨by simp, by decide +kernel⟩
  · exact Or.inr ⟨by simp, by decide +kernel⟩
  · exact Or.inr ⟨by simp, by decide +kernel⟩

theorem isNamePart_of_isNumberPart (h : isNumberPart c = true) (hc : isXidContinue c = true) :
    isNamePart c = true := by
  rcases isNumberPart_cases h with ⟨hname, -⟩ | ⟨-, hno⟩
  · exact hname
  · rw [hc] at hno
    cases hno

/-- A name ends where the identifier ends. -/
theorem nameLength_append (hrest : rest.EndsIdentifier) (s : Text) :
    nameLength (s ++ rest) = nameLength s :=
  measures_nameLength.append s rest (hrest.stopsAt.mono fun _ => isXidContinue_of_isNamePart)

/-- What a class of lexemes takes of an identifier is a piece of it. -/
theorem isPiece_ofLength {cls : LexemeClass} {n : Nat} (hn : n ≠ 0) (hle : n ≤ s.length)
    (hcls : cls = .broken ∧ n = 1 ∨
      (cls = .name ∨ cls = .number) ∧ ∀ d ∈ s.take n, isNamePart d = true) :
    (ofLength cls (s ++ rest) n).text ++ s.drop n = s ∧ (ofLength cls (s ++ rest) n).IsPiece := by
  have htext : (ofLength cls (s ++ rest) n).text = s.take n := List.take_append_of_le_length hle
  have hlength : (ofLength cls (s ++ rest) n).text.length = n := by
    rw [htext, List.length_take, Nat.min_eq_left hle]
  refine ⟨by rw [htext, List.take_append_drop], ⟨?_, ?_⟩⟩
  · rw [ne_eq, ← List.length_eq_zero_iff, hlength]
    exact hn
  · rw [hlength, htext]
    exact hcls

/-- The lexeme at the start of what an identifier goes on with is a piece of it, or a number that takes
all of it and more. -/
theorem first_append_cases (hs : ∀ d ∈ s, isXidContinue d = true) (hne : s ≠ [])
    (hrest : rest.EndsIdentifier) :
    (∃ s', (first (s ++ rest)).text ++ s' = s ∧ (first (s ++ rest)).IsPiece) ∨
      ∃ more, more ≠ [] ∧ first (s ++ rest) = ⟨.number, s ++ more⟩ := by
  have hpos : 1 ≤ s.length := List.length_pos_iff.2 hne
  rw [first_of_identifierPart hs hne hrest]
  split_ifs with hnumber hname
  · by_cases hle : numberLength (s ++ rest) ≤ s.length
    · have hpart : ∀ d ∈ s.take (numberLength (s ++ rest)), isNamePart d = true := by
        intro d hd
        have hmem : d ∈ (s ++ rest).take (numberLength (s ++ rest)) := by
          rwa [List.take_append_of_le_length hle]
        exact isNamePart_of_isNumberPart (measures_numberLength.of_mem_take hmem)
          (hs d (List.mem_of_mem_take hd))
      exact Or.inl ⟨_, isPiece_ofLength hnumber hle (Or.inr ⟨Or.inr rfl, hpart⟩)⟩
    · refine Or.inr ⟨rest.take (numberLength (s ++ rest) - s.length), ?_, ?_⟩
      · have hlength := measures_numberLength.le (s ++ rest)
        rw [List.length_append] at hlength
        rw [ne_eq, ← List.length_eq_zero_iff, List.length_take]
        omega
      · rw [ofLength, List.take_append, List.take_of_length_le (Nat.le_of_not_le hle)]
  · rw [nameLength_append hrest] at hname ⊢
    exact Or.inl ⟨_, isPiece_ofLength hname (measures_nameLength.le s)
      (Or.inr ⟨Or.inl rfl, fun d hd => measures_nameLength.of_mem_take hd⟩)⟩
  · exact Or.inl ⟨_, isPiece_ofLength Nat.one_ne_zero hpos (Or.inl ⟨rfl, rfl⟩)⟩

theorem numberLength_eq_zero (hdigit : c.isDigit = false) (hpoint : c ≠ '.') (t : Text) :
    numberLength (c :: t) = 0 := by
  have hzero : c ≠ '0' := by
    rintro rfl
    cases hdigit
  simp [numberLength, radixLength, decimalLength, pointLength, hdigit, hpoint, hzero]

/-- An identifier of ASCII characters is a name. -/
theorem first_append_of_isNamePart (hs : Text.isIdentifier s = true)
    (hpart : ∀ d ∈ s, isNamePart d = true) (hrest : rest.EndsIdentifier) :
    first (s ++ rest) = ⟨.name, s⟩ := by
  have hcontinue := Text.isXidContinue_of_isIdentifier hs
  obtain ⟨c, t, rfl⟩ := List.exists_cons_of_ne_nil (Text.ne_nil_of_isIdentifier hs)
  rw [List.forall_mem_cons] at hpart
  have hstart : isNameStart c = true := by
    rw [Text.isIdentifier_cons, Bool.and_eq_true] at hs
    exact isNameStart_of_isIdentifierStart hs.1 (toNat_lt_of_isNamePart hpart.1)
  have hnumber : numberLength (c :: t ++ rest) = 0 := by
    refine numberLength_eq_zero (isDigit_eq_false_of_isNameStart hstart) ?_ (t ++ rest)
    rintro rfl
    cases hstart
  have hname : nameLength (c :: t ++ rest) = (c :: t).length := by
    rw [nameLength_append hrest, nameLength, if_pos hstart, List.takeWhile_eq_self_iff.2 hpart.2,
      List.length_cons, Nat.add_comm]
  have hlength : (c :: t).length ≠ 0 := Nat.succ_ne_zero t.length
  rw [first_of_identifierPart hcontinue (List.cons_ne_nil c t) hrest, if_neg (not_not.2 hnumber),
    hname, if_pos hlength, ofLength, List.take_left]

/-- A number holds the characters of numbers. -/
theorem isNumberPart_of_cls_eq_number (h : (first t).cls = .number) :
    ∀ c ∈ (first t).text, isNumberPart c = true := by
  have hfirst : first t = ofLength .number t (numberLength t) := by
    rcases hopening : opening? t with _ | ⟨marks, quote⟩
    · simp only [first, hopening] at h ⊢
      split_ifs at h ⊢
      · cases h
      · cases h
      · cases h
      · rfl
      · cases h
      · cases h
      · cases h
    · simp only [first, hopening] at h
      split_ifs at h
      · cases h
      · cases h
      · cases h
      · rcases cls_stringAt t marks quote with hcls | hcls <;> rw [hcls] at h <;> cases h
  intro c hc
  rw [hfirst] at hc
  exact measures_numberLength.of_mem_take hc

/-! ### The pieces of an identifier -/

/-- What lexemes make up. -/
def spelled (ls : List Lexeme) : Text := (ls.map Lexeme.text).flatten

@[simp] theorem spelled_nil : spelled [] = [] := rfl

@[simp] theorem spelled_cons (l : Lexeme) (ls : List Lexeme) :
    spelled (l :: ls) = l.text ++ spelled ls := rfl

@[simp] theorem spelled_append (ls ls' : List Lexeme) :
    spelled (ls ++ ls') = spelled ls ++ spelled ls' := by
  simp [spelled]

end Lexeme

open Lexeme (spelled spelled_cons spelled_append)

/-- After some lexemes comes a number that begins in `w` and runs on into the text after it. -/
def NumberRunsOnAfter (ls : List Lexeme) (w rest : Text) : Prop :=
  ∃ number more others, lexemes (w ++ rest) = ls ++ ⟨.number, number ++ more⟩ :: others ∧
    spelled ls ++ number = w ∧ number ≠ [] ∧ more ≠ []

/-- A number begins in `w` and runs on into the text after it. -/
def NumberRunsOn (w rest : Text) : Prop := ∃ ls, NumberRunsOnAfter ls w rest

section pieces

open Text (isXidContinue)

variable {s rest : Text} {ls : List Lexeme}

/-- **An identifier is cut into pieces**, and the lexemes after them are those of the text after it,
unless a number runs on. -/
theorem exists_pieces (hs : ∀ d ∈ s, isXidContinue d = true) (hrest : rest.EndsIdentifier) :
    ∃ ls, (∀ l ∈ ls, l.IsPiece) ∧ (spelled ls = s ∧ lexemes (s ++ rest) = ls ++ lexemes rest ∨
      NumberRunsOnAfter ls s rest) := by
  -- by the length of what is left of the identifier, since a piece may be of any length
  induction hlen : s.length using Nat.strongRecOn generalizing s with
  | _ n ih =>
    by_cases hne : s = []
    · subst hne
      exact ⟨[], nofun, Or.inl ⟨rfl, rfl⟩⟩
    have hlexemes := lexemes_of_ne_nil (List.append_ne_nil_of_left_ne_nil hne rest)
    rcases Lexeme.first_append_cases hs hne hrest with ⟨s', hsplit, hpiece⟩ | ⟨more, hmore, hfirst⟩
    · generalize hl : Lexeme.first (s ++ rest) = l at *
      have hdrop : (s ++ rest).drop l.text.length = s' ++ rest := by
        rw [← hsplit, List.append_assoc, List.drop_left]
      have hshorter : s'.length < n := by
        have hpos := List.length_pos_iff.2 hpiece.text_ne_nil
        rw [← hlen, ← hsplit, List.length_append]
        omega
      have hs' : ∀ d ∈ s', isXidContinue d = true := fun d hd =>
        hs d (by rw [← hsplit]; exact List.mem_append_right _ hd)
      obtain ⟨ls, hls, hcases⟩ := ih s'.length hshorter hs' rfl
      rw [hdrop] at hlexemes
      refine ⟨l :: ls, List.forall_mem_cons.2 ⟨hpiece, hls⟩, ?_⟩
      rcases hcases with ⟨htext, heq⟩ | ⟨number, more, others, heq, htext, hnumber, hmore⟩
      · left
        rw [spelled_cons, htext, hlexemes, heq]
        exact ⟨hsplit, rfl⟩
      · right
        refine ⟨number, more, others, ?_, ?_, hnumber, hmore⟩
        · rw [hlexemes, heq]
          rfl
        · rw [spelled_cons, List.append_assoc, htext, hsplit]
    · rw [hfirst] at hlexemes
      exact ⟨[], nofun, Or.inr ⟨s, more, _, hlexemes, rfl, hne, hmore⟩⟩

/-- A number that runs on takes characters of numbers only, and the first of them after the identifier
is a point or a sign. -/
theorem NumberRunsOnAfter.exists_cons (h : NumberRunsOnAfter ls s rest)
    (hrest : rest.EndsIdentifier) :
    ∃ number c more others, lexemes (s ++ rest) = ls ++ ⟨.number, number ++ c :: more⟩ :: others ∧
      spelled ls ++ number = s ∧ number ≠ [] ∧ (∀ d ∈ number, Lexeme.isNumberPart d = true) ∧
      c ∈ rest.head? ∧ (c = '.' ∨ c = '+' ∨ c = '-') := by
  obtain ⟨number, more, others, heq, htext, hnumber, hmore⟩ := h
  have hpart : ∀ c ∈ number ++ more, Lexeme.isNumberPart c = true := by
    obtain ⟨part, -, hfirst⟩ := exists_of_mem_lexemes
      (show ⟨.number, number ++ more⟩ ∈ lexemes (s ++ rest) by rw [heq]; simp)
    have hcls := Lexeme.isNumberPart_of_cls_eq_number (t := part) (by rw [← hfirst])
    rwa [← hfirst] at hcls
  have hsplit : rest = more ++ spelled others := by
    have hflatten : spelled (lexemes (s ++ rest)) = s ++ rest := flatten_lexemes (s ++ rest)
    rw [heq, spelled_append, spelled_cons, ← List.append_assoc, ← List.append_assoc, htext,
      List.append_assoc] at hflatten
    exact (List.append_cancel_left hflatten).symm
  obtain ⟨c, more, rfl⟩ := List.exists_cons_of_ne_nil hmore
  have hhead : c ∈ rest.head? := by rw [hsplit]; rfl
  refine ⟨number, c, more, others, heq, htext, hnumber,
    fun d hd => hpart d (List.mem_append_left _ hd), hhead, ?_⟩
  rcases Lexeme.isNumberPart_cases (hpart c (by simp)) with ⟨-, hcontinue⟩ | ⟨hc, -⟩
  · rw [(hrest c hhead).1] at hcontinue
    cases hcontinue
  · exact hc

/-- An identifier of ASCII characters is one lexeme. -/
theorem lexemes_append_of_isNamePart (hs : Text.isIdentifier s = true)
    (hpart : ∀ c ∈ s, Lexeme.isNamePart c = true) (hrest : rest.EndsIdentifier) :
    lexemes (s ++ rest) = ⟨.name, s⟩ :: lexemes rest := by
  have hfirst := Lexeme.first_append_of_isNamePart hs hpart hrest
  obtain ⟨c, t, rfl⟩ := List.exists_cons_of_ne_nil (Text.ne_nil_of_isIdentifier hs)
  rw [List.cons_append] at hfirst ⊢
  rw [lexemes_cons, hfirst]
  exact congrArg _ (congrArg lexemes List.drop_left)

/-- The pieces of an identifier are one name, or there is a broken one among them. -/
theorem exists_pieces_of_isIdentifier (hs : Text.isIdentifier s = true)
    (hrest : rest.EndsIdentifier) :
    ∃ ls, (∀ l ∈ ls, l.IsPiece) ∧ (ls = [⟨.name, s⟩] ∨ ∃ l ∈ ls, l.cls = .broken) ∧
      (spelled ls = s ∧ lexemes (s ++ rest) = ls ++ lexemes rest ∨ NumberRunsOnAfter ls s rest) := by
  have hcontinue := Text.isXidContinue_of_isIdentifier hs
  by_cases hascii : ∀ c ∈ s, Lexeme.isNamePart c = true
  · have hpiece : Lexeme.IsPiece ⟨.name, s⟩ :=
      ⟨Text.ne_nil_of_isIdentifier hs, Or.inr ⟨Or.inl rfl, hascii⟩⟩
    exact ⟨[⟨.name, s⟩], by simpa using hpiece, Or.inl rfl,
      Or.inl ⟨by simp, lexemes_append_of_isNamePart hs hascii hrest⟩⟩
  · obtain ⟨ls, hls, hcases⟩ := exists_pieces hcontinue hrest
    refine ⟨ls, hls, Or.inr ?_, hcases⟩
    by_contra hno
    push Not at hno
    have hspelled : ∀ c ∈ spelled ls, Lexeme.isNamePart c = true := by
      intro c hc
      obtain ⟨text, htext, hc⟩ := List.mem_flatten.1 hc
      obtain ⟨l, hl, rfl⟩ := List.mem_map.1 htext
      rcases (hls l hl).cases with ⟨hbroken, -⟩ | ⟨-, hpart⟩
      · exact absurd hbroken (hno l hl)
      · exact hpart c hc
    apply hascii
    rcases hcases with ⟨rfl, -⟩ | hruns
    · exact hspelled
    · obtain ⟨number, _, _, _, -, rfl, -, hpart, -⟩ := hruns.exists_cons hrest
      intro c hc
      rcases List.mem_append.1 hc with hleft | hright
      · exact hspelled c hleft
      · exact Lexeme.isNamePart_of_isNumberPart (hpart c hright) (hcontinue c hc)

/-- Where an identifier is cut into pieces that end with it, no number runs on. -/
theorem not_numberRunsOn (hls : spelled ls = s) (heq : lexemes (s ++ rest) = ls ++ lexemes rest) :
    ¬ NumberRunsOn s rest := by
  rintro ⟨before, number, more, others, heq', htext, hnumber, hmore⟩
  have hnumber' := List.length_pos_iff.2 hnumber
  have hmore' := List.length_pos_iff.2 hmore
  rw [heq, List.append_eq_append_iff] at heq'
  rcases heq' with ⟨middle, rfl, -⟩ | ⟨middle, rfl, hmiddle⟩
  · have hlength := congrArg List.length htext
    rw [spelled_append, hls] at hlength
    simp only [List.length_append] at hlength
    omega
  · cases middle with
    | nil =>
      have hlength := congrArg List.length htext
      rw [← hls, List.append_nil, List.length_append] at hlength
      omega
    | cons l middle =>
      obtain ⟨rfl, -⟩ := List.cons_eq_cons.1 hmiddle
      have hlength := congrArg List.length (htext.trans hls.symm)
      rw [spelled_append, spelled_cons] at hlength
      simp only [List.length_append] at hlength
      omega

/-- In an identifier of ASCII characters no number begins. -/
theorem NumberRunsOn.exists_lt_toNat (h : NumberRunsOn s rest) (hs : Text.isIdentifier s = true)
    (hrest : rest.EndsIdentifier) : ∃ c ∈ s, 127 < c.toNat := by
  by_contra hno
  push Not at hno
  have hpart : ∀ c ∈ s, Lexeme.isNamePart c = true := fun c hc => by
    rw [Lexeme.isNamePart_eq_of_toNat_lt (Nat.lt_succ_of_le (hno c hc))]
    exact Text.isXidContinue_of_isIdentifier hs c hc
  have hlexemes := lexemes_append_of_isNamePart hs hpart hrest
  exact not_numberRunsOn (show spelled [⟨.name, s⟩] = s from List.append_nil s) hlexemes h

end pieces

end SourceSpans
