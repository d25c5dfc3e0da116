import Mathlib.Data.List.TakeWhile
import Mathlib.Tactic.Common
import SourceSpans.Token.Lexeme

/-!
# How far the measures of lexemes look

The length of a lexeme is measured on the whole rest of the text. Most measures look no further than
the first character that cannot belong to what they measure: they take no more than stands before it,
and it makes no difference what comes from there on. This is `Lexeme.Measures f p`, for a measure `f` and
the class `p` of characters that it may take. It is kept by one measure after another
(`Measures.andThen`) and by the longer of two (`Measures.max`), which is how numbers are measured
(`measures_numberLength`).
-/

namespace SourceSpans.Lexeme

/-- A text that is empty or starts with a character that is not of a class. -/
def StopsAt (p : Char → Bool) (x : Text) : Prop := ∀ c ∈ x.head?, p c = false

/-- A measure takes no more than there is, and characters after a text that stops at its class do not
change it. -/
structure Measures (f : Text → Nat) (p : Char → Bool) : Prop where
  le : ∀ u, f u ≤ u.length
  append : ∀ u x, StopsAt p x → f (u ++ x) = f u

variable {f g : Text → Nat} {p q : Char → Bool} {c : Char} {u x t : Text}

@[simp] theorem stopsAt_nil : StopsAt p [] := nofun

@[simp] theorem stopsAt_cons : StopsAt p (c :: x) ↔ p c = false := by
  simp [StopsAt]

theorem StopsAt.mono (h : StopsAt p x) (hqp : ∀ c, q c = true → p c = true) : StopsAt q x := by
  intro c hc
  by_contra hq
  rw [Bool.not_eq_false] at hq
  exact absurd (hqp c hq) (by simp [h c hc])

theorem takeWhile_append_of_stopsAt (h : StopsAt p x) :
    (u ++ x).takeWhile p = u.takeWhile p := by
  induction u with
  | nil =>
    cases x with
    | nil => rfl
    | cons c x => simp [stopsAt_cons.1 h]
  | cons c u ih => simp [List.takeWhile_cons, ih]

theorem isPrefixOf_append_of_stopsAt {w : Text} (hw : ∀ c ∈ w, p c = true) (h : StopsAt p x) :
    w.isPrefixOf (u ++ x) = w.isPrefixOf u := by
  induction w generalizing u with
  | nil => simp
  | cons c w ih =>
    have hw' : ∀ c ∈ w, p c = true := fun d hd => hw d (List.mem_cons_of_mem c hd)
    cases u with
    | cons d u => simp only [List.cons_append, List.isPrefixOf, ih hw']
    | nil =>
      cases x with
      | nil => rfl
      | cons d x =>
        have hne : c ≠ d := by
          rintro rfl
          have := hw c List.mem_cons_self
          simp [stopsAt_cons.1 h] at this
        simp only [List.nil_append, List.isPrefixOf, beq_false_of_ne hne, Bool.false_and]

theorem of_beq {d : Char} (hd : p d = true) (c : Char) (hc : (c == d) = true) : p c = true := by
  rwa [beq_iff_eq.1 hc]

namespace Measures

theorem mono (h : Measures f p) (hpq : ∀ c, p c = true → q c = true) : Measures f q :=
  ⟨h.le, fun u x hx => h.append u x (hx.mono hpq)⟩

/-- Where the class is missed at once, nothing is measured. -/
theorem eq_zero_of_stopsAt (h : Measures f p) (hx : StopsAt p x) : f x = 0 := by
  have happend := h.append [] x hx
  have hle := h.le []
  rw [List.nil_append] at happend
  rw [List.length_nil] at hle
  omega

/-- Only characters of the class are measured. -/
theorem le_length_takeWhile (h : Measures f p) (t : Text) : f t ≤ (t.takeWhile p).length := by
  have hstops : StopsAt p (t.dropWhile p) := by
    intro c hc
    have hhead := List.head?_dropWhile_not p t
    rw [Option.mem_def.1 hc] at hhead
    simpa using hhead
  have happend := h.append (t.takeWhile p) _ hstops
  rw [List.takeWhile_append_dropWhile] at happend
  rw [happend]
  exact h.le _

theorem of_mem_take (h : Measures f p) (hc : c ∈ t.take (f t)) : p c = true := by
  have hpre : t.take (f t) <+: t.takeWhile p := by
    have hle := h.le_length_takeWhile t
    refine List.prefix_of_prefix_length_le (List.take_prefix _ t) (List.takeWhile_prefix p) ?_
    exact Nat.le_trans (List.length_take_le _ t) hle
  exact List.mem_takeWhile_imp (hpre.subset hc)

theorem drop_append (h : Measures f p) (hx : StopsAt p x) :
    (u ++ x).drop (f (u ++ x)) = u.drop (f u) ++ x := by
  rw [h.append u x hx, List.drop_append_of_le_length (h.le u)]

/-- What is measured after what another measure takes. -/
theorem andThen (hf : Measures f p) (hg : Measures g p) :
    Measures (fun t => f t + g (t.drop (f t))) p := by
  constructor
  · intro u
    have hfle := hf.le u
    have hgle := hg.le (u.drop (f u))
    rw [List.length_drop] at hgle
    show f u + g (u.drop (f u)) ≤ u.length
    omega
  · intro u x hx
    show f (u ++ x) + g ((u ++ x).drop (f (u ++ x))) = _
    rw [hf.drop_append hx, hg.append _ x hx, hf.append u x hx]

theorem max (hf : Measures f p) (hg : Measures g p) :
    Measures (fun t => Nat.max (f t) (g t)) p := by
  constructor
  · intro u
    exact Nat.max_le.2 ⟨hf.le u, hg.le u⟩
  · intro u x hx
    show Nat.max (f (u ++ x)) (g (u ++ x)) = _
    rw [hf.append u x hx, hg.append u x hx]

theorem takeWhile (hqp : ∀ c, q c = true → p c = true) :
    Measures (fun t => (t.takeWhile q).length) p := by
  constructor
  · intro u
    exact (List.takeWhile_prefix q).length_le
  · intro u x hx
    show ((u ++ x).takeWhile q).length = _
    rw [takeWhile_append_of_stopsAt (hx.mono hqp)]

/-- What starts with a character of the class and is measured after it. -/
theorem cons (hqp : ∀ c, q c = true → p c = true) (hf : Measures f p)
    (hnil : g [] = 0) (hcons : ∀ c t, g (c :: t) = if q c then 1 + f t else 0) :
    Measures g p := by
  constructor
  · rintro (_ | ⟨c, u⟩)
    · exact Nat.le_of_eq hnil
    · have hle := hf.le u
      rw [hcons, List.length_cons]
      split_ifs <;> omega
  · rintro (_ | ⟨c, u⟩) x hx
    · cases x with
      | nil => rfl
      | cons c x =>
        have hq : q c = false := stopsAt_cons.1 (hx.mono hqp)
        rw [List.nil_append, hcons, hq, hnil]
        rfl
    · rw [List.cons_append, hcons, hcons, hf.append u x hx]

/-- What starts with two characters of the class, each of its own kind, and depends on what is measured
after them. -/
theorem cons_cons {r : Char → Bool} {k : Nat → Nat} (hqp : ∀ c, q c = true → p c = true)
    (hrp : ∀ c, r c = true → p c = true) (hf : Measures f p) (hk : ∀ n, k n ≤ 2 + n)
    (hnil : g [] = 0) (hsingle : ∀ c, g [c] = 0)
    (hcons : ∀ c d t, g (c :: d :: t) = if q c = true ∧ r d = true then k (f t) else 0) :
    Measures g p := by
  constructor
  · rintro (_ | ⟨c, _ | ⟨d, u⟩⟩)
    · exact Nat.le_of_eq hnil
    · rw [hsingle]
      exact Nat.zero_le _
    · have hle := hf.le u
      have hkle := hk (f u)
      rw [hcons, List.length_cons, List.length_cons]
      split_ifs <;> omega
  · rintro (_ | ⟨c, _ | ⟨d, u⟩⟩) x hx
    · -- both characters would be past the place where the class is missed
      rcases x with _ | ⟨c, _ | ⟨d, x⟩⟩
      · rfl
      · rw [List.nil_append, hsingle, hnil]
      · have hq : ¬ q c = true := Bool.eq_false_iff.1 (stopsAt_cons.1 (hx.mono hqp))
        rw [List.nil_append, hcons, if_neg fun h => hq h.1, hnil]
    · -- only the second one would be
      cases x with
      | nil => rfl
      | cons d x =>
        have hr : ¬ r d = true := Bool.eq_false_iff.1 (stopsAt_cons.1 (hx.mono hrp))
        rw [List.cons_append, List.nil_append, hcons, if_neg fun h => hr h.2, hsingle]
    · rw [List.cons_append, List.cons_append, hcons, hcons, hf.append u x hx]

theorem zero : Measures (fun _ => 0) p := ⟨fun _ => Nat.zero_le _, fun _ _ _ => rfl⟩

end Measures

/-! ### Names and comments -/

theorem isNamePart_of_isNameStart (h : isNameStart c = true) : isNamePart c = true := by
  simp only [isNameStart, isNamePart, Char.isAlphanum, Bool.or_eq_true] at *
  tauto

theorem measures_nameLength : Measures nameLength isNamePart :=
  .cons (fun _ => isNamePart_of_isNameStart) (.takeWhile fun _ h => h) rfl fun _ _ => rfl

theorem measures_commentLength : Measures commentLength fun c => c != '\r' && c != '\n' := by
  refine .cons (q := (· == '#')) (of_beq rfl) (.takeWhile fun _ h => h) rfl fun c t => ?_
  by_cases hc : c = '#'
  · subst hc
    rfl
  · simp [commentLength, hc]

/-! ### Numbers -/

/-- Characters that may stand in a number: those of names, the point, and signs. -/
def isNumberPart (c : Char) : Bool := isNamePart c || c == '.' || c == '+' || c == '-'

theorem isNumberPart_of_isNamePart (h : isNamePart c = true) : isNumberPart c = true := by
  simp [isNumberPart, h]

theorem isNumberPart_of_isDigit (h : c.isDigit = true) : isNumberPart c = true := by
  simp [isNumberPart, isNamePart, Char.isAlphanum, h]

theorem isNumberPart_of_isAlpha (h : c.isUpper = true ∨ c.isLower = true) :
    isNumberPart c = true := by
  have halpha : c.isAlpha = true := by
    show (c.isUpper || c.isLower) = true
    rwa [Bool.or_eq_true]
  exact isNumberPart_of_isNamePart (isNamePart_of_isNameStart (by simp [isNameStart, halpha]))

theorem isNumberPart_of_isDigitPart (h : isDigitPart c = true) : isNumberPart c = true := by
  rw [isDigitPart, Bool.or_eq_true] at h
  rcases h with h | h
  · exact isNumberPart_of_isDigit h
  · simp [isNumberPart, isNamePart, h]

theorem measures_digitsLength : Measures digitsLength isNumberPart :=
  .takeWhile fun _ => isNumberPart_of_isDigitPart

theorem measures_signLength : Measures signLength isNumberPart := by
  refine .cons (q := fun c => c = '+' || c = '-') ?_ .zero rfl fun _ _ => rfl
  intro c hc
  rw [Bool.or_eq_true, decide_eq_true_eq, decide_eq_true_eq] at hc
  rcases hc with rfl | rfl <;> rfl

theorem measures_imaginaryLength : Measures imaginaryLength isNumberPart := by
  refine .cons (q := fun c => c = 'j' || c = 'J') ?_ .zero rfl fun _ _ => rfl
  intro c hc
  rw [Bool.or_eq_true, decide_eq_true_eq, decide_eq_true_eq] at hc
  rcases hc with rfl | rfl <;> rfl

theorem exponentLength_cons (c : Char) (t : Text) :
    exponentLength (c :: t) =
      if c = 'e' || c = 'E' then
        if digitsLength (t.drop (signLength t)) = 0 then 0
        else 1 + (signLength t + digitsLength (t.drop (signLength t)))
      else 0 := by
  rw [exponentLength]
  split_ifs with _ hdigits
  · rw [hdigits]
  · obtain ⟨n, hn⟩ := Nat.exists_eq_succ_of_ne_zero hdigits
    rw [hn]
    show 2 + signLength t + n = _
    omega
  · rfl

theorem measures_exponentLength : Measures exponentLength isNumberPart := by
  have hdigits := measures_signLength.andThen measures_digitsLength
  constructor
  · rintro (_ | ⟨c, u⟩)
    · exact Nat.le_refl 0
    · have hle := hdigits.le u
      rw [exponentLength_cons, List.length_cons]
      split_ifs <;> omega
  · rintro (_ | ⟨c, u⟩) x hx
    · cases x with
      | nil => rfl
      | cons c x =>
        have hc : ¬ (c = 'e' || c = 'E') = true := by
          rw [Bool.or_eq_true, decide_eq_true_eq, decide_eq_true_eq]
          rintro (rfl | rfl) <;> cases stopsAt_cons.1 hx
        rw [List.nil_append, exponentLength_cons, if_neg hc]
        rfl
    · rw [List.cons_append, exponentLength_cons, exponentLength_cons,
        measures_signLength.drop_append hx, measures_digitsLength.append _ x hx,
        measures_signLength.append u x hx]

theorem measures_scaleLength : Measures scaleLength isNumberPart :=
  measures_exponentLength.andThen measures_imaginaryLength

theorem measures_fractionLength : Measures fractionLength isNumberPart := by
  refine .cons (q := (· == '.')) (of_beq rfl) measures_digitsLength rfl fun c t => ?_
  by_cases hc : c = '.'
  · subst hc
    rfl
  · simp [fractionLength, hc]

/-- The whole part of a decimal number. -/
def wholeLength : Text → Nat
  | [] => 0
  | c :: rest => if c.isDigit then 1 + digitsLength rest else 0

theorem measures_wholeLength : Measures wholeLength isNumberPart :=
  .cons (fun _ => isNumberPart_of_isDigit) measures_digitsLength rfl fun _ _ => rfl

/-- A decimal number is its whole part, and if there is one a fraction and a scale after it. -/
theorem decimalLength_eq (t : Text) :
    decimalLength t =
      if wholeLength t = 0 then 0
      else wholeLength t + (fractionLength (t.drop (wholeLength t)) +
        scaleLength ((t.drop (wholeLength t)).drop (fractionLength (t.drop (wholeLength t))))) := by
  cases t with
  | nil => rfl
  | cons c t =>
    by_cases hc : c.isDigit = true
    · have hwhole : wholeLength (c :: t) = 1 + digitsLength t := if_pos hc
      rw [decimalLength, if_pos hc, if_neg (by omega), hwhole, List.drop_drop, Nat.add_assoc]
    · have hwhole : wholeLength (c :: t) = 0 := if_neg hc
      rw [decimalLength, if_neg hc, if_pos hwhole]

theorem measures_decimalLength : Measures decimalLength isNumberPart := by
  have hnumber := measures_wholeLength.andThen
    (measures_fractionLength.andThen measures_scaleLength)
  constructor
  · intro u
    have hle := hnumber.le u
    rw [decimalLength_eq]
    split_ifs <;> omega
  · intro u x hx
    have happend := hnumber.append u x hx
    rw [measures_wholeLength.append u x hx] at happend
    rw [decimalLength_eq, decimalLength_eq, measures_wholeLength.append u x hx, happend]

/-- A number that starts with its point is the point and digits, and a scale after them. -/
theorem pointLength_cons (c d : Char) (t : Text) :
    pointLength (c :: d :: t) =
      if c = '.' ∧ d.isDigit = true then
        2 + (digitsLength t + scaleLength (t.drop (digitsLength t)))
      else 0 := by
  by_cases hc : c = '.'
  · subst hc
    by_cases hd : d.isDigit = true
    · have hdrop : ('.' :: d :: t).drop (2 + digitsLength t) = t.drop (digitsLength t) := by
        rw [Nat.add_comm]
        rfl
      rw [if_pos ⟨rfl, hd⟩, pointLength, if_pos hd, Nat.add_assoc]
      rw [hdrop]
    · rw [if_neg fun h => hd h.2, pointLength, if_neg hd]
  · rw [if_neg fun h => hc h.1, pointLength]
    intro _ _ heq
    exact hc (List.cons_eq_cons.1 heq).1

theorem measures_pointLength : Measures pointLength isNumberPart := by
  refine .cons_cons (q := (· == '.')) (of_beq rfl) (fun _ => isNumberPart_of_isDigit)
    (measures_digitsLength.andThen measures_scaleLength) (fun _ => Nat.le_refl _) rfl ?_ ?_
  · intro c
    rw [pointLength]
    intro _ _ heq
    cases (List.cons_eq_cons.1 heq).2
  · intro c d t
    simp only [pointLength_cons, beq_iff_eq]

/-- A radix mark is a letter, so what reads as the mark in lower case may stand in a number. -/
theorem toLower_ne_of_not_isNumberPart {mark : Char} (hmark : isNumberPart mark = true)
    (hc : isNumberPart c = false) : c.toLower ≠ mark := by
  rintro rfl
  unfold Char.toLower at hmark
  split_ifs at hmark with hupper
  · have hpart := isNumberPart_of_isAlpha (Or.inl (decide_eq_true hupper : c.isUpper = true))
    rw [hc] at hpart
    cases hpart
  · rw [hc] at hmark
    cases hmark

section radix

variable {mark : Char} {isDigit : Char → Bool}

theorem radixLength_cons (c m : Char) (t : Text) :
    radixLength mark isDigit (c :: m :: t) =
      if c = '0' ∧ m.toLower = mark then
        if (t.takeWhile fun c => isDigit c || c == '_').length = 0 then 0
        else 2 + (t.takeWhile fun c => isDigit c || c == '_').length
      else 0 := by
  by_cases hc : c = '0'
  · subst hc
    by_cases hm : m.toLower = mark
    · rw [if_pos ⟨rfl, hm⟩, radixLength, if_pos hm]
      split_ifs with hdigits
      · rw [hdigits]
      · obtain ⟨n, hn⟩ := Nat.exists_eq_succ_of_ne_zero hdigits
        rw [hn]
        show n + 3 = _
        omega
    · rw [if_neg fun h => hm h.2, radixLength, if_neg hm]
  · rw [if_neg fun h => hc h.1, radixLength]
    intro _ _ heq
    exact hc (List.cons_eq_cons.1 heq).1

theorem measures_radixLength (hmark : isNumberPart mark = true)
    (hdigit : ∀ c, isDigit c = true → isNumberPart c = true) :
    Measures (radixLength mark isDigit) isNumberPart := by
  have hdigits : Measures (fun t => (t.takeWhile fun c => isDigit c || c == '_').length)
      isNumberPart := by
    refine .takeWhile fun c hc => ?_
    rw [Bool.or_eq_true, beq_iff_eq] at hc
    rcases hc with hc | rfl
    · exact hdigit c hc
    · rfl
  have hletter : ∀ c, (Char.toLower c == mark) = true → isNumberPart c = true := by
    intro c hc
    by_contra hno
    exact toLower_ne_of_not_isNumberPart hmark (Bool.eq_false_iff.2 hno) (beq_iff_eq.1 hc)
  refine .cons_cons (q := (· == '0')) (r := (Char.toLower · == mark))
    (k := fun n => if n = 0 then 0 else 2 + n) (of_beq rfl) hletter hdigits ?_ rfl ?_ ?_
  · intro n
    split_ifs <;> omega
  · intro c
    rw [radixLength]
    intro _ _ heq
    cases (List.cons_eq_cons.1 heq).2
  · intro c d t
    simp only [radixLength_cons, beq_iff_eq]

end radix

theorem isNumberPart_of_isHexDigit (h : isHexDigit c = true) : isNumberPart c = true := by
  simp only [isHexDigit, Bool.or_eq_true, Bool.and_eq_true, decide_eq_true_eq, Char.le_def,
    UInt32.le_iff_toNat_le] at h
  rcases h with (hdigit | ⟨hlo, hhi⟩) | ⟨hlo, hhi⟩
  · exact isNumberPart_of_isDigit hdigit
  · have hlower : c.isLower = true := by
      unfold Char.isLower
      simp only [Bool.and_eq_true, decide_eq_true_eq, ge_iff_le, UInt32.le_iff_toNat_le]
      exact ⟨hlo, Nat.le_trans hhi (by decide)⟩
    exact isNumberPart_of_isAlpha (Or.inr hlower)
  · have hupper : c.isUpper = true := by
      unfold Char.isUpper
      simp only [decide_eq_true_eq, ge_iff_le, UInt32.le_iff_toNat_le]
      exact ⟨hlo, Nat.le_trans hhi (by decide)⟩
    exact isNumberPart_of_isAlpha (Or.inl hupper)

theorem isNumberPart_of_isOctalDigit (h : isOctalDigit c = true) : isNumberPart c = true := by
  simp only [isOctalDigit, Bool.and_eq_true, decide_eq_true_eq, Char.le_def,
    UInt32.le_iff_toNat_le] at h
  apply isNumberPart_of_isDigit
  simp only [Char.isDigit, Bool.and_eq_true, decide_eq_true_eq, ge_iff_le,
    UInt32.le_iff_toNat_le]
  exact ⟨h.1, Nat.le_trans h.2 (by decide)⟩

theorem isNumberPart_of_isBinaryDigit (h : isBinaryDigit c = true) : isNumberPart c = true := by
  rw [isBinaryDigit, Bool.or_eq_true, beq_iff_eq, beq_iff_eq] at h
  rcases h with rfl | rfl <;> rfl

/-- **Numbers are measured up to the first character that may not stand in one.** -/
theorem measures_numberLength : Measures numberLength isNumberPart := by
  have hhex : Measures (radixLength 'x' isHexDigit) isNumberPart :=
    measures_radixLength rfl fun _ => isNumberPart_of_isHexDigit
  have hoctal : Measures (radixLength 'o' isOctalDigit) isNumberPart :=
    measures_radixLength rfl fun _ => isNumberPart_of_isOctalDigit
  have hbinary : Measures (radixLength 'b' isBinaryDigit) isNumberPart :=
    measures_radixLength rfl fun _ => isNumberPart_of_isBinaryDigit
  exact (hhex.max hoctal).max (hbinary.max (measures_decimalLength.max measures_pointLength))

/-! ### Openings of strings and operators -/

/-- Which of several words a text starts with does not depend on what comes after it, if that starts
with a character of none of the words. -/
theorem find?_isPrefixOf_append {words : List Text} (hwords : ∀ w ∈ words, ∀ c ∈ w, p c = true)
    (h : StopsAt p x) :
    words.find? (fun w => w.isPrefixOf (u ++ x)) = words.find? fun w => w.isPrefixOf u := by
  induction words with
  | nil => rfl
  | cons w words ih =>
    rw [List.find?_cons, List.find?_cons,
      isPrefixOf_append_of_stopsAt (hwords w List.mem_cons_self) h,
      ih fun w' hw' => hwords w' (List.mem_cons_of_mem w hw')]

/-- The quotes, longer ones first. -/
def quotes : List Text := [['\'', '\'', '\''], ['"', '"', '"'], ['\''], ['"']]

theorem isPrefixOf_eq_false {w : Text} (h : ∀ rest, t = w ++ rest → False) :
    w.isPrefixOf t = false := by
  refine Bool.eq_false_iff.2 fun hprefix => ?_
  obtain ⟨rest, hrest⟩ := List.isPrefixOf_iff_prefix.1 hprefix
  exact h rest hrest.symm

theorem quote?_eq (t : Text) : quote? t = quotes.find? fun quote => quote.isPrefixOf t := by
  unfold quote?
  split
  · rfl
  · rfl
  · rename_i rest hno
    have htriple : List.isPrefixOf ['\'', '\''] rest = false := isPrefixOf_eq_false hno
    simp [quotes, htriple]
  · rename_i rest hno
    have htriple : List.isPrefixOf ['"', '"'] rest = false := isPrefixOf_eq_false hno
    simp [quotes, htriple]
  · rename_i hsingle hdouble
    refine (List.find?_eq_none.2 fun quote hquote => ?_).symm
    have hfirst : quote.head? = some '\'' ∨ quote.head? = some '"' := by
      revert quote
      decide
    rw [Bool.not_eq_true]
    refine isPrefixOf_eq_false fun rest ht => ?_
    cases quote with
    | nil => simp at hfirst
    | cons c quote =>
      rcases hfirst with hc | hc
      · exact hsingle _ (by rw [ht, Option.some.inj hc]; rfl)
      · exact hdouble _ (by rw [ht, Option.some.inj hc]; rfl)

/-- Characters that may stand in the opening of a string. -/
def isOpeningPart (c : Char) : Bool := isStringMark c || c == '\'' || c == '"'

theorem isOpeningPart_of_mem_quotes {quote : Text} (hquote : quote ∈ quotes) :
    ∀ c ∈ quote, isOpeningPart c = true := by
  have hall : ∀ w ∈ quotes, w.all isOpeningPart = true := by decide
  exact List.all_eq_true.1 (hall quote hquote)

theorem opening?_append (hx : StopsAt isOpeningPart x) : opening? (u ++ x) = opening? u := by
  have hmarks : StopsAt isStringMark x := hx.mono fun c hc => by simp [isOpeningPart, hc]
  have hdrop : (u ++ x).drop (u.takeWhile isStringMark).length =
      u.drop (u.takeWhile isStringMark).length ++ x :=
    List.drop_append_of_le_length (List.takeWhile_prefix _).length_le
  rw [opening?, opening?, takeWhile_append_of_stopsAt hmarks, hdrop, quote?_eq, quote?_eq,
    find?_isPrefixOf_append (fun _ => isOpeningPart_of_mem_quotes) hx]

/-- The opening of a string stands at the start of the text. -/
theorem le_length_of_opening?_eq_some {marks : Nat} {quote : Text}
    (h : opening? t = some (marks, quote)) : marks + quote.length ≤ t.length := by
  simp only [opening?] at h
  split_ifs at h
  obtain ⟨quote', hquote, heq⟩ := Option.map_eq_some_iff.1 h
  obtain ⟨rfl, rfl⟩ := Prod.mk.inj heq
  rw [quote?_eq] at hquote
  have hprefix := List.find?_some hquote
  have hle := (List.isPrefixOf_iff_prefix.1 hprefix).length_le
  have hmarks := (List.takeWhile_prefix (p := isStringMark) (l := t)).length_le
  rw [List.length_drop] at hle
  omega

/-- Characters that may stand in an operator. -/
def isOperatorPart (c : Char) : Bool := operators.any fun op => op.contains c

theorem operatorLength_eq (t : Text) :
    operatorLength t = ((operators.find? fun op => op.isPrefixOf t).map List.length).getD 0 := by
  rw [operatorLength]
  cases operators.find? fun op => op.isPrefixOf t <;> rfl

theorem measures_operatorLength : Measures operatorLength isOperatorPart := by
  have hoperators : ∀ op ∈ operators, ∀ c ∈ op, isOperatorPart c = true := by
    intro op hop c hc
    exact List.any_eq_true.2 ⟨op, hop, by simpa using hc⟩
  constructor
  · intro u
    rw [operatorLength]
    split
    · rename_i op hfind
      have hprefix := List.find?_some hfind
      exact (List.isPrefixOf_iff_prefix.1 hprefix).length_le
    · exact Nat.zero_le _
  · intro u x hx
    rw [operatorLength_eq, operatorLength_eq, find?_isPrefixOf_append hoperators hx]

end SourceSpans.Lexeme
