import Mathlib.Data.List.Chain
import Mathlib.Data.List.TakeWhile
import SourceSpans.Token.Lexeme

/-!
# Comments, line breaks and what follows them

The lexemes that lay out lines are tried first (`Lexeme.first_cases`), so a line break or a comment is
known by its first characters. A comment runs up to a carriage return or a line feed, and what comes
after it is a line break, or a carriage return without a line feed, which starts no lexeme and is
broken (`lexemes_isChain`).
-/

namespace SourceSpans

/-! ### What follows a comment -/

namespace Lexeme

variable {t : Text}

/-- The characters with which what only lays out lines may start. -/
def layoutStarts : List Char := [' ', '\t', '\x0c', '\\', '\n', '\r', '#']

theorem layoutLengths_eq_zero {c : Char} (h : c ∉ layoutStarts) :
    gapLength (c :: t) = 0 ∧ lineBreakLength (c :: t) = 0 ∧ commentLength (c :: t) = 0 := by
  have hne : ∀ d ∈ layoutStarts, c ≠ d := by
    rintro d hd rfl
    exact h hd
  refine ⟨?_, ?_, ?_⟩
  · unfold gapLength
    split
    · rename_i heq
      exact absurd (List.cons_eq_cons.1 heq).1 (hne _ (by decide))
    · rename_i heq
      exact absurd (List.cons_eq_cons.1 heq).1 (hne _ (by decide))
    · have hspace := hne ' ' (by decide)
      have htab := hne '\t' (by decide)
      have hfeed := hne '\x0c' (by decide)
      simp [isGap, hspace, htab, hfeed]
  · unfold lineBreakLength
    split
    · rename_i heq
      exact absurd (List.cons_eq_cons.1 heq).1 (hne _ (by decide))
    · rename_i heq
      exact absurd (List.cons_eq_cons.1 heq).1 (hne _ (by decide))
    · rfl
  · unfold commentLength
    split
    · rename_i heq
      exact absurd (List.cons_eq_cons.1 heq).1 (hne _ (by decide))
    · rfl

theorem cls_stringAt (t : Text) (marks : Nat) (quote : Text) :
    (stringAt t marks quote).cls = .string ∨ (stringAt t marks quote).cls = .broken := by
  simp only [stringAt]
  split
  · exact Or.inl rfl
  · exact Or.inr rfl

/-- Gaps, line breaks and comments are tried first; the other lexemes are none of these. -/
theorem first_cases (t : Text) :
    gapLength t ≠ 0 ∧ first t = ofLength .gap t (gapLength t) ∨
      lineBreakLength t ≠ 0 ∧ first t = ofLength .lineBreak t (lineBreakLength t) ∨
      commentLength t ≠ 0 ∧ first t = ofLength .comment t (commentLength t) ∨
      (first t).cls ≠ .gap ∧ (first t).cls ≠ .lineBreak ∧ (first t).cls ≠ .comment := by
  by_cases hgap : gapLength t ≠ 0
  · exact Or.inl ⟨hgap, by rw [first, if_pos hgap]⟩
  by_cases hbreak : lineBreakLength t ≠ 0
  · exact Or.inr (Or.inl ⟨hbreak, by rw [first, if_neg hgap, if_pos hbreak]⟩)
  by_cases hcomment : commentLength t ≠ 0
  · exact Or.inr (Or.inr (Or.inl ⟨hcomment, by
      rw [first, if_neg hgap, if_neg hbreak, if_pos hcomment]⟩))
  · refine Or.inr (Or.inr (Or.inr ?_))
    rw [first, if_neg hgap, if_neg hbreak, if_neg hcomment]
    rcases hopening : opening? t with _ | ⟨marks, quote⟩
    · show (_ : Lexeme).cls ≠ .gap ∧ (_ : Lexeme).cls ≠ .lineBreak ∧ (_ : Lexeme).cls ≠ .comment
      split_ifs <;> exact ⟨nofun, nofun, nofun⟩
    · rcases cls_stringAt t marks quote with heq | heq
      all_goals
        show (stringAt t marks quote).cls ≠ .gap ∧ (stringAt t marks quote).cls ≠ .lineBreak ∧
          (stringAt t marks quote).cls ≠ .comment
        rw [heq]
        exact ⟨nofun, nofun, nofun⟩

theorem first_of_cls_eq_lineBreak (h : (first t).cls = .lineBreak) :
    lineBreakLength t ≠ 0 ∧ first t = ofLength .lineBreak t (lineBreakLength t) := by
  rcases first_cases t with ⟨-, heq⟩ | hbreak | ⟨-, heq⟩ | ⟨-, hnot, -⟩
  · rw [heq] at h
    cases h
  · exact hbreak
  · rw [heq] at h
    cases h
  · exact absurd h hnot

theorem first_of_cls_eq_comment (h : (first t).cls = .comment) :
    commentLength t ≠ 0 ∧ first t = ofLength .comment t (commentLength t) := by
  rcases first_cases t with ⟨-, heq⟩ | ⟨-, heq⟩ | hcomment | ⟨-, -, hnot⟩
  · rw [heq] at h
    cases h
  · rw [heq] at h
    cases h
  · exact hcomment
  · exact absurd h hnot

/-- A line break is a line feed, with or without a carriage return before it. -/
theorem text_of_cls_eq_lineBreak (h : (first t).cls = .lineBreak) :
    (first t).text = ['\n'] ∨ (first t).text = ['\r', '\n'] := by
  obtain ⟨hlength, hfirst⟩ := first_of_cls_eq_lineBreak h
  rw [hfirst]
  unfold lineBreakLength at hlength ⊢
  split
  · exact Or.inl rfl
  · exact Or.inr rfl
  · rename_i h₁ h₂
    split at hlength
    · exact absurd rfl (h₁ _)
    · exact absurd rfl (h₂ _)
    · exact absurd rfl hlength

/-- A comment runs up to a carriage return, a line feed or the end of the text. -/
theorem exists_of_cls_eq_comment (h : (first t).cls = .comment) :
    ∃ rest, t = '#' :: rest ∧
      (first t).text = '#' :: rest.takeWhile (fun c => c != '\r' && c != '\n') := by
  obtain ⟨hlength, hfirst⟩ := first_of_cls_eq_comment h
  rw [hfirst]
  cases t with
  | nil => exact absurd rfl hlength
  | cons c rest =>
    by_cases hc : c = '#'
    · subst hc
      refine ⟨rest, rfl, ?_⟩
      show ('#' :: rest).take (1 + (rest.takeWhile fun c => c != '\r' && c != '\n').length) = _
      rw [Nat.add_comm, List.take_succ_cons, List.takeWhile_eq_take_findIdx_not]
      simp [List.length_take, Nat.min_eq_left (List.findIdx_le_length)]
    · exfalso
      apply hlength
      unfold commentLength
      split
      · rename_i heq
        exact absurd (List.cons_eq_cons.1 heq).1 hc
      · rfl

theorem lineFeed_not_mem_of_cls_eq_comment (h : (first t).cls = .comment) :
    '\n' ∉ (first t).text := by
  obtain ⟨rest, -, htext⟩ := exists_of_cls_eq_comment h
  rw [htext, List.mem_cons, not_or]
  refine ⟨nofun, fun hmem => ?_⟩
  have hall := List.mem_takeWhile_imp hmem
  simp at hall

theorem text_first_ne_nil (h : t ≠ []) : (first t).text ≠ [] := by
  obtain ⟨n, hn, htext⟩ := exists_first_text_eq_take t
  rw [htext, ne_eq, List.take_eq_nil_iff, not_or]
  exact ⟨Nat.ne_of_gt hn, h⟩

/-- Before a carriage return without a line feed there is no lexeme but this character. -/
theorem first_carriageReturn {rest : Text} (h : rest.head? ≠ some '\n') :
    first ('\r' :: rest) = ⟨.broken, ['\r']⟩ := by
  have hbreak : lineBreakLength ('\r' :: rest) = 0 := by
    unfold lineBreakLength
    split
    · rename_i heq
      cases heq
    · rename_i heq
      rw [(List.cons_eq_cons.1 heq).2] at h
      exact absurd rfl h
    · rfl
  have hoperator : operatorLength ('\r' :: rest) = 0 := by
    have hhead : ∀ op ∈ operators, op.head?.isSome && op.head? != some '\r' := by decide
    have hnone : operators.find? (fun op => op.isPrefixOf ('\r' :: rest)) = none := by
      refine List.find?_eq_none.2 fun op hop => ?_
      have := hhead op hop
      cases op with
      | nil => cases this
      | cons c op =>
        have hc : c ≠ '\r' := by simpa using this
        simp [hc]
    rw [operatorLength, hnone]
  have hnumber : numberLength ('\r' :: rest) = 0 := by
    simp [numberLength, radixLength, decimalLength, pointLength]
  rw [first, if_neg (by simp [gapLength, isGap]), if_neg (by simp [hbreak]),
    if_neg (by simp [commentLength])]
  have hopening : opening? ('\r' :: rest) = none := by
    simp [opening?, isStringMark, quote?]
  rw [hopening]
  show (if numberLength _ ≠ 0 then _ else _) = _
  rw [if_neg (by simp [hnumber]), if_neg (by simp [nameLength, isNameStart]),
    if_neg (by simp [hoperator])]
  rfl

/-- After a comment comes a line break, or a carriage return alone. -/
theorem first_after_comment (h : (first t).cls = .comment)
    (hrest : t.drop (first t).text.length ≠ []) :
    (first (t.drop (first t).text.length)).cls = .lineBreak ∨
      first (t.drop (first t).text.length) = ⟨.broken, ['\r']⟩ := by
  obtain ⟨rest, rfl, htext⟩ := exists_of_cls_eq_comment h
  have hdrop : ('#' :: rest).drop (first ('#' :: rest)).text.length =
      rest.dropWhile fun c => c != '\r' && c != '\n' := by
    have hleft : (rest.takeWhile (fun c => c != '\r' && c != '\n') ++
        rest.dropWhile (fun c => c != '\r' && c != '\n')).drop
        (rest.takeWhile fun c => c != '\r' && c != '\n').length =
      rest.dropWhile fun c => c != '\r' && c != '\n' := List.drop_left
    rw [htext, List.length_cons, List.drop_succ_cons]
    rwa [List.takeWhile_append_dropWhile] at hleft
  rw [hdrop] at hrest ⊢
  have hhead := List.head_dropWhile_not (fun c => c != '\r' && c != '\n') hrest
  rcases hcons : rest.dropWhile fun c => c != '\r' && c != '\n' with _ | ⟨c, after⟩
  · exact absurd hcons hrest
  · simp only [hcons, List.head_cons] at hhead
    by_cases hc : c = '\n'
    · subst hc
      exact Or.inl rfl
    · have hc' : c = '\r' := by simpa [hc] using hhead
      subst hc'
      by_cases hfeed : after.head? = some '\n'
      · obtain ⟨after', rfl⟩ : ∃ after', after = '\n' :: after' := by
          cases after with
          | nil => cases hfeed
          | cons d after' => exact ⟨after', by rw [Option.some.inj hfeed]⟩
        exact Or.inl rfl
      · exact Or.inr (first_carriageReturn hfeed)

end Lexeme

theorem lexemes_of_ne_nil {t : Text} (h : t ≠ []) :
    lexemes t = Lexeme.first t :: lexemes (t.drop (Lexeme.first t).text.length) := by
  obtain ⟨c, t, rfl⟩ := List.exists_cons_of_ne_nil h
  exact lexemes_cons c t

theorem take_length_first (t : Text) :
    t.take (Lexeme.first t).text.length = (Lexeme.first t).text := by
  obtain ⟨n, -, htext⟩ := Lexeme.exists_first_text_eq_take t
  rw [htext, List.length_take, ← List.take_take, List.take_length]

/-- What is proved of a text from the rest of it after its first lexeme holds of all texts. -/
theorem lexemes_induction {motive : Text → Prop} (nil : motive [])
    (cons : ∀ t, t ≠ [] → lexemes t =
      Lexeme.first t :: lexemes (t.drop (Lexeme.first t).text.length) →
      motive (t.drop (Lexeme.first t).text.length) → motive t) (t : Text) : motive t := by
  induction hlen : t.length using Nat.strongRecOn generalizing t with
  | _ n ih =>
    by_cases hne : t = []
    · exact hne ▸ nil
    · have hlength := List.length_pos_iff.2 hne
      have hfirst := List.length_pos_iff.2 (Lexeme.text_first_ne_nil hne)
      refine cons t hne (lexemes_of_ne_nil hne) (ih _ ?_ _ rfl)
      rw [List.length_drop]
      omega

/-- A lexeme of a text is the first one of a part of the text. -/
theorem exists_of_mem_lexemes {t : Text} {l : Lexeme} (h : l ∈ lexemes t) :
    ∃ part, part ≠ [] ∧ l = Lexeme.first part := by
  induction t using lexemes_induction with
  | nil => exact absurd h List.not_mem_nil
  | cons t hne heq ih =>
    rw [heq] at h
    rcases List.mem_cons.1 h with rfl | h
    · exact ⟨t, hne, rfl⟩
    · exact ih h

/-- After each comment of a text comes a line break, or a carriage return alone. -/
theorem lexemes_isChain (t : Text) : (lexemes t).IsChain fun a b =>
    a.cls = .comment → b.cls = .lineBreak ∨ b = ⟨.broken, ['\r']⟩ := by
  induction t using lexemes_induction with
  | nil => exact List.IsChain.nil
  | cons t hne heq ih =>
    rw [heq]
    refine ih.cons fun b hb hcomment => ?_
    generalize hrest : t.drop (Lexeme.first t).text.length = rest at hb
    cases rest with
    | nil => cases hb
    | cons c rest =>
      rw [lexemes_cons, List.head?_cons] at hb
      obtain rfl := Option.some.inj hb
      rw [← hrest]
      exact Lexeme.first_after_comment hcomment (by rw [hrest]; exact List.cons_ne_nil _ _)

end SourceSpans
