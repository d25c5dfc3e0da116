import SourceSpans.Proofs.Token.LineEnds
import SourceSpans.Proofs.Token.Reading
import SourceSpans.Proofs.Token.Rejoining

/-!
# Strings end at the first quote that nothing protects

The text after an opening quote is read in units: a backslash with the character after it, or another
character alone (`Lexeme.IsUnit`). The quote closes the string at the end of some units (`Lexeme.Closes`); a
string in a single quote has no unit that is a bare line feed.

* **One unit more** (`closesFirst_append_iff`): either the text starts with the quote, which closes the
  string at once, or its first unit belongs to the string, and the quote closes what comes after it. The
  measure of the lexer goes on in the same way (`closeLength?_append`).
* **The first quote** (`closeLength?_eq_some_iff`): by induction on the units the measure is that of the
  fewest units at the end of which the quote closes the string.
* **Tokens** (`isStringLiteral_of_tokenize`): a token that is a string is the text of a lexeme that is one,
  and joining identifiers makes no strings, so each of them is a literal with nothing in its body that would
  have closed it.
-/

namespace SourceSpans

namespace Lexeme

variable {quote u v t : Text} {units : List Text} {c : Char} {marks n : Nat}

/-! ### Units -/

/-- One unit of the body of a string: a backslash with the character after it, or another character. -/
def IsUnit (u : Text) : Prop := (∃ c, u = ['\\', c]) ∨ ∃ c, c ≠ '\\' ∧ u = [c]

theorem isUnit_escape (c : Char) : IsUnit ['\\', c] := Or.inl ⟨c, rfl⟩

theorem isUnit_bare (h : c ≠ '\\') : IsUnit [c] := Or.inr ⟨c, h, rfl⟩

/-- A text starts with one unit only. -/
theorem IsUnit.eq_of_append_eq (hu : IsUnit u) (hv : IsUnit v) {x : Text} (h : v ++ x = u ++ t) :
    v = u ∧ x = t := by
  obtain ⟨c, rfl⟩ | ⟨c, hc, rfl⟩ := hu <;> obtain ⟨d, rfl⟩ | ⟨d, hd, rfl⟩ := hv
  · simpa using h
  · exact absurd (List.cons_eq_cons.1 h).1 hd
  · exact absurd (List.cons_eq_cons.1 h).1.symm hc
  · simpa using h

theorem IsUnit.ne_nil (hu : IsUnit u) : u ≠ [] := by
  obtain ⟨c, rfl⟩ | ⟨c, -, rfl⟩ := hu <;> exact List.cons_ne_nil _ _

/-- What is proved of a text from the rest of it after its first unit holds of all texts. A backslash at the
end of a text is no unit. -/
theorem units_induction {motive : Text → Prop} (nil : motive []) (backslash : motive ['\\'])
    (unit : ∀ u t, IsUnit u → motive t → motive (u ++ t)) : ∀ t, motive t
  | [] => nil
  | ['\\'] => backslash
  | '\\' :: c :: t => unit ['\\', c] t (isUnit_escape c) (units_induction nil backslash unit t)
  | c :: t => by
      by_cases hc : c = '\\'
      · subst hc
        cases t with
        | nil => exact backslash
        | cons d t => exact unit ['\\', d] t (isUnit_escape d) (units_induction nil backslash unit t)
      · exact unit [c] t (isUnit_bare hc) (units_induction nil backslash unit t)

/-! ### Quotes at the end of units -/

/-- A quote stands at the end of some units at the start of a text, none of which is a bare line feed if the
quote is single. -/
structure Closes (quote t : Text) (units : List Text) : Prop where
  isUnit : ∀ u ∈ units, IsUnit u
  follows : units.flatten ++ quote <+: t
  unbroken : quote.length = 1 → ['\n'] ∉ units

/-- No quote stands at the end of fewer units. -/
structure ClosesFirst (quote t : Text) (units : List Text) : Prop extends Closes quote t units where
  first : ∀ earlier, Closes quote t earlier → units.length ≤ earlier.length

theorem closes_nil_iff : Closes quote t [] ↔ quote <+: t :=
  ⟨fun h => h.follows, fun h => ⟨nofun, h, fun _ => List.not_mem_nil⟩⟩

/-- One unit more. -/
theorem closes_cons_iff (hu : IsUnit u) :
    Closes quote (u ++ t) (v :: units) ↔
      v = u ∧ (quote.length = 1 → u ≠ ['\n']) ∧ Closes quote t units := by
  constructor
  · intro h
    obtain ⟨x, hx⟩ := h.follows
    rw [List.flatten_cons, List.append_assoc, List.append_assoc] at hx
    obtain ⟨rfl, hrest⟩ := hu.eq_of_append_eq (h.isUnit v List.mem_cons_self) hx
    refine ⟨rfl, fun hsingle heq => ?_, fun w hw => h.isUnit w (List.mem_cons_of_mem v hw),
      ⟨x, by rw [← hrest, List.append_assoc]⟩, fun hsingle hmem => ?_⟩
    · exact h.unbroken hsingle (heq ▸ List.mem_cons_self)
    · exact h.unbroken hsingle (List.mem_cons_of_mem v hmem)
  · rintro ⟨rfl, hfeed, h⟩
    refine ⟨?_, ?_, fun hsingle hmem => ?_⟩
    · intro w hw
      rcases List.mem_cons.1 hw with rfl | hw
      · exact hu
      · exact h.isUnit w hw
    · rw [List.flatten_cons, List.append_assoc]
      exact (List.prefix_append_right_inj v).2 h.follows
    · rcases List.mem_cons.1 hmem with heq | hmem
      · exact hfeed hsingle heq.symm
      · exact h.unbroken hsingle hmem

/-- A quote is closed at once, or else the first unit belongs to the string. -/
theorem closesFirst_append_iff (hu : IsUnit u) :
    ClosesFirst quote (u ++ t) units ↔
      if quote <+: u ++ t then units = []
      else ∃ rest, units = u :: rest ∧ (quote.length = 1 → u ≠ ['\n']) ∧ ClosesFirst quote t rest := by
  split_ifs with hquote
  · constructor
    · intro h
      exact List.length_eq_zero_iff.1 (Nat.le_zero.1 (h.first [] (closes_nil_iff.2 hquote)))
    · rintro rfl
      exact ⟨closes_nil_iff.2 hquote, fun _ _ => Nat.zero_le _⟩
  · constructor
    · intro h
      cases units with
      | nil => exact absurd (closes_nil_iff.1 h.toCloses) hquote
      | cons v rest =>
        obtain ⟨rfl, hfeed, hrest⟩ := (closes_cons_iff hu).1 h.toCloses
        refine ⟨rest, rfl, hfeed, hrest, fun earlier hearlier => ?_⟩
        have hle := h.first (v :: earlier) ((closes_cons_iff hu).2 ⟨rfl, hfeed, hearlier⟩)
        simpa using hle
    · rintro ⟨rest, rfl, hfeed, h⟩
      refine ⟨(closes_cons_iff hu).2 ⟨rfl, hfeed, h.toCloses⟩, fun earlier hearlier => ?_⟩
      cases earlier with
      | nil => exact absurd (closes_nil_iff.1 hearlier) hquote
      | cons w earlier =>
        obtain ⟨-, -, hrest⟩ := (closes_cons_iff hu).1 hearlier
        simpa using h.first earlier hrest

/-- Where a quote closes a string it closes one first. -/
theorem Closes.exists_closesFirst (h : Closes quote t units) : ∃ first, ClosesFirst quote t first := by
  induction hlength : units.length using Nat.strongRecOn generalizing units with
  | _ n ih =>
    by_cases hfewer : ∃ earlier, Closes quote t earlier ∧ earlier.length < n
    · obtain ⟨earlier, hearlier, hlt⟩ := hfewer
      exact ih earlier.length hlt hearlier rfl
    · refine ⟨units, h, fun earlier hearlier => ?_⟩
      by_contra hlt
      exact hfewer ⟨earlier, hearlier, by omega⟩

/-! ### The measure of a string -/

theorem not_prefix_backslash (hquote : quote ∈ quotes) (t : Text) : ¬ quote <+: '\\' :: t := by
  intro h
  rw [← List.isPrefixOf_iff_prefix, isPrefixOf_cons_eq_false hquote rfl] at h
  cases h

theorem not_prefix_lineFeed (hquote : quote ∈ quotes) (t : Text) : ¬ quote <+: '\n' :: t := by
  intro h
  rw [← List.isPrefixOf_iff_prefix, isPrefixOf_cons_eq_false hquote rfl] at h
  cases h

theorem length_of_mem_quotes (hquote : quote ∈ quotes) : quote.length = 1 ∨ quote.length = 3 := by
  have hlengths : ∀ w ∈ quotes, w.length = 1 ∨ w.length = 3 := by decide
  exact hlengths quote hquote

/-- What is left of a text without a unit has no room for a quote. -/
theorem not_closes_of_length_le (hquote : quote ∈ quotes) (hlength : t.length ≤ 1)
    (hquotes : ¬ quote <+: t) : ¬ Closes quote t units := by
  intro h
  cases units with
  | nil => exact hquotes (closes_nil_iff.1 h)
  | cons u rest =>
    have hle := h.follows.length_le
    have hpos := List.length_pos_iff.2 (h.isUnit u List.mem_cons_self).ne_nil
    have hone := length_of_mem_quotes hquote
    rw [List.flatten_cons, List.length_append, List.length_append] at hle
    omega

/-- Measuring goes on from unit to unit. -/
theorem closeLength?_append (hquote : quote ∈ quotes) (hu : IsUnit u) (t : Text) :
    closeLength? quote (u ++ t) =
      if quote <+: u ++ t then some quote.length
      else if quote.length = 1 ∧ u = ['\n'] then none
      else (closeLength? quote t).map (· + u.length) := by
  obtain ⟨c, rfl⟩ | ⟨c, hc, rfl⟩ := hu
  · rw [List.cons_append, if_neg (not_prefix_backslash hquote _), if_neg (by simp)]
    exact closeLength?_escape quote c t
  · rw [List.singleton_append, closeLength?_cons quote hc]
    by_cases hfeed : c = '\n'
    · subst hfeed
      rw [if_neg (not_prefix_lineFeed hquote t), isPrefixOf_cons_eq_false hquote rfl]
      rcases length_of_mem_quotes hquote with hlength | hlength <;> simp [hlength]
    · simp [hfeed, ← List.isPrefixOf_iff_prefix]

/-- **A string is measured up to the end of the first quote that closes it.** -/
theorem closeLength?_eq_some_iff (hquote : quote ∈ quotes) :
    closeLength? quote t = some n ↔
      ∃ units, ClosesFirst quote t units ∧ (units.flatten ++ quote).length = n := by
  induction t using units_induction generalizing n with
  | nil =>
    have hquotes : ¬ quote <+: [] := by
      intro h
      have hone := length_of_mem_quotes hquote
      rw [List.prefix_nil.1 h] at hone
      simp at hone
    refine iff_of_false nofun ?_
    rintro ⟨units, h, -⟩
    exact not_closes_of_length_le hquote (t := []) (Nat.zero_le 1) hquotes h.toCloses
  | backslash =>
    refine iff_of_false nofun ?_
    rintro ⟨units, h, -⟩
    exact not_closes_of_length_le hquote le_rfl (not_prefix_backslash hquote []) h.toCloses
  | unit u t hu ih =>
    rw [closeLength?_append hquote hu]
    simp only [closesFirst_append_iff hu]
    split_ifs with hquotes hfeed
    · simp
    · refine iff_of_false nofun ?_
      rintro ⟨units, ⟨rest, -, hno, -⟩, -⟩
      exact hno hfeed.1 hfeed.2
    · rw [Option.map_eq_some_iff]
      constructor
      · rintro ⟨k, hk, rfl⟩
        obtain ⟨rest, hrest, rfl⟩ := ih.1 hk
        refine ⟨u :: rest, ⟨rest, rfl, fun hsingle heq => hfeed ⟨hsingle, heq⟩, hrest⟩, ?_⟩
        simp only [List.flatten_cons, List.length_append]
        omega
      · rintro ⟨units, ⟨rest, rfl, -, hrest⟩, rfl⟩
        refine ⟨_, ih.2 ⟨rest, hrest, rfl⟩, ?_⟩
        simp only [List.flatten_cons, List.length_append]
        omega

theorem closeLength?_isSome_iff (hquote : quote ∈ quotes) :
    (closeLength? quote t).isSome = true ↔ ∃ units, Closes quote t units := by
  rw [Option.isSome_iff_exists]
  constructor
  · rintro ⟨n, hn⟩
    obtain ⟨units, h, -⟩ := (closeLength?_eq_some_iff hquote).1 hn
    exact ⟨units, h.toCloses⟩
  · rintro ⟨units, h⟩
    obtain ⟨first, hfirst⟩ := h.exists_closesFirst
    exact ⟨_, (closeLength?_eq_some_iff hquote).2 ⟨first, hfirst, rfl⟩⟩

/-! ### String lexemes -/

/-- The opening of a string stands at the start of a text, so nothing that lays out lines does. -/
theorem first_of_opening?_eq_some (h : opening? t = some (marks, quote)) :
    first t = stringAt t marks quote := by
  obtain ⟨hmarks, -, hquote, hquotes, -⟩ := opening?_eq_some h
  cases t with
  | nil =>
    have hone := length_of_mem_quotes hquote
    rw [List.drop_nil, List.prefix_nil] at hquotes
    rw [hquotes] at hone
    simp at hone
  | cons c t =>
    have hopens : isOpeningPart c = true := by
      by_cases hmark : isStringMark c = true
      · simp [isOpeningPart, hmark]
      · rw [List.takeWhile_cons_of_neg hmark, List.length_nil] at hmarks
        rw [hmarks, List.drop_zero] at hquotes
        by_contra hno
        rw [← List.isPrefixOf_iff_prefix,
          isPrefixOf_cons_eq_false hquote (Bool.eq_false_iff.2 hno)] at hquotes
        cases hquotes
    have hlayout : layoutStarts.all (!isOpeningPart ·) = true := by decide
    obtain ⟨hgap, hbreak, hcomment⟩ := layoutLengths_eq_zero (t := t) (c := c) (by
      intro hmem
      have hno := List.all_eq_true.1 hlayout c hmem
      rw [hopens] at hno
      cases hno)
    unfold first
    rw [if_neg (not_not.2 hgap), if_neg (not_not.2 hbreak), if_neg (not_not.2 hcomment), h]

/-- A string lexeme has an opening, and a quote that closes it. -/
theorem exists_of_cls_eq_string (h : (first t).cls = .string) :
    ∃ marks quote n, opening? t = some (marks, quote) ∧
      closeLength? quote (t.drop (marks + quote.length)) = some n := by
  rcases hopening : opening? t with _ | ⟨marks, quote⟩
  · unfold first at h
    rw [hopening] at h
    dsimp only at h
    split_ifs at h <;> cases h
  · rw [first_of_opening?_eq_some hopening] at h
    rcases hclose : closeLength? quote (t.drop (marks + quote.length)) with _ | n
    · rw [stringAt_of_none hclose] at h
      cases h
    · exact ⟨marks, quote, n, rfl, hclose⟩

theorem take_opening (h : opening? t = some (marks, quote)) :
    t.take (marks + quote.length) = t.take marks ++ quote := by
  obtain ⟨-, -, -, hquotes, -⟩ := opening?_eq_some h
  rw [List.take_add, ← List.prefix_iff_eq_take.1 hquotes]

/-- A string that a quote closes first ends with this quote. -/
theorem first_of_closesFirst (h : opening? t = some (marks, quote))
    (hcloses : ClosesFirst quote (t.drop (marks + quote.length)) units) :
    first t = ⟨.string, t.take marks ++ quote ++ (units.flatten ++ quote)⟩ := by
  have hquote := (opening?_eq_some h).2.2.1
  have hclose := (closeLength?_eq_some_iff hquote).2 ⟨units, hcloses, rfl⟩
  rw [first_of_opening?_eq_some h, stringAt_of_some hclose, ofLength, List.take_add, take_opening h,
    ← List.prefix_iff_eq_take.1 hcloses.follows]

/-- Where no quote closes a string only the opening is taken. -/
theorem first_of_not_closes (h : opening? t = some (marks, quote))
    (hopen : ¬ ∃ units, Closes quote (t.drop (marks + quote.length)) units) :
    first t = ⟨.broken, t.take marks ++ quote⟩ := by
  have hquote := (opening?_eq_some h).2.2.1
  rw [← closeLength?_isSome_iff hquote, Bool.not_eq_true, Option.isSome_eq_false_iff,
    Option.isNone_iff_eq_none] at hopen
  rw [first_of_opening?_eq_some h, stringAt_of_none hopen, ofLength, take_opening h]

end Lexeme

/-- Two marks at most, a quote, a body that the quote does not close before its end, and the quote again. -/
def Text.IsStringLiteral (s : Text) : Prop :=
  ∃ marks quote units, s = marks ++ quote ++ (units.flatten ++ quote) ∧ marks.length ≤ 2 ∧
    (∀ c ∈ marks, c ∈ "rRbBuUfF".toList) ∧ quote ∈ Lexeme.quotes ∧
    Lexeme.ClosesFirst quote (units.flatten ++ quote) units

open Lexeme in
theorem Lexeme.isStringLiteral_of_cls_eq_string {t : Text} (h : (first t).cls = .string) :
    (first t).text.IsStringLiteral := by
  obtain ⟨marks, quote, n, hopening, hclose⟩ := exists_of_cls_eq_string h
  obtain ⟨hmarks, hle, hquote, -, -⟩ := opening?_eq_some hopening
  obtain ⟨units, hcloses, -⟩ := (closeLength?_eq_some_iff hquote).1 hclose
  rw [first_of_closesFirst hopening hcloses]
  refine ⟨t.take marks, quote, units, rfl, ?_, ?_, hquote, ⟨hcloses.isUnit, List.prefix_rfl,
    hcloses.unbroken⟩, ?_⟩
  · exact (List.length_take_le marks t).trans hle
  · intro c hc
    rw [hmarks, ← List.prefix_iff_eq_take.1 (List.takeWhile_prefix isStringMark)] at hc
    simpa [isStringMark] using List.mem_takeWhile_imp hc
  · intro earlier hearlier
    exact hcloses.first earlier
      ⟨hearlier.isUnit, hearlier.follows.trans hcloses.follows, hearlier.unbroken⟩

/-! ### String tokens -/

namespace Layout

variable {lines : List Text} {s : Layout} {l : Lexeme} {ls : List Lexeme} {place : Position}
  {tokens : List RawToken} {a : RawToken}

theorem of_mem_codeTokens_string (ha : a ∈ codeTokens lines place l) (hkind : a.kind = .string) :
    l.cls = .string ∧ a.text = l.text := by
  obtain ⟨cls, text⟩ := l
  cases cls with
  | gap => cases ha
  | comment => cases ha
  | lineBreak => cases ha
  | string =>
    rw [List.mem_singleton.1 ha]
    exact ⟨rfl, rfl⟩
  | broken =>
    rw [kind_of_mem_errorTokens ha] at hkind
    cases hkind
  | name | number | operator =>
    rw [List.mem_singleton.1 ha] at hkind
    cases hkind

/-- **By each rule of reading, a token that is a string is the text of a string lexeme.** -/
theorem Reads.exists_string (h : Reads lines s ls tokens) (ha : a ∈ tokens) (hkind : a.kind = .string) :
    ∃ l ∈ ls, l.cls = .string ∧ a.text = l.text := by
  induction h with
  | finish s =>
    have hmem : TokenKind.string ∈ kinds (Layout.finish lines s) := hkind ▸ List.mem_map_of_mem ha
    rw [kinds_finish] at hmem
    split_ifs at hmem <;> simp at hmem
  | gap hcls h ih =>
    obtain ⟨l, hl, htext⟩ := ih ha
    exact ⟨l, List.mem_cons_of_mem _ hl, htext⟩
  | comment hcls h ih | newline hcls hdepth hcode h ih | nl hcls hends h ih =>
    rcases List.mem_cons.1 ha with rfl | ha
    · cases hkind
    · obtain ⟨l, hl, htext⟩ := ih ha
      exact ⟨l, List.mem_cons_of_mem _ hl, htext⟩
  | opens hl hne hcode hmarks h ih =>
    rw [List.mem_append, List.mem_append] at ha
    rcases ha with (ha | ha) | ha
    · have hmark := isBlockMark_of_mem_marks hmarks ha
      rw [hkind] at hmark
      cases hmark
    · exact ⟨_, List.mem_cons_self, of_mem_codeTokens_string ha hkind⟩
    · obtain ⟨l, hl, htext⟩ := ih ha
      exact ⟨l, List.mem_cons_of_mem _ hl, htext⟩
  | code hl hne hcode h ih =>
    rcases List.mem_append.1 ha with ha | ha
    · exact ⟨_, List.mem_cons_self, of_mem_codeTokens_string ha hkind⟩
    · obtain ⟨l, hl, htext⟩ := ih ha
      exact ⟨l, List.mem_cons_of_mem _ hl, htext⟩

end Layout

variable {t : Text} {raw fine coarse joined : List RawToken} {a : RawToken}

theorem isStringLiteral_of_tokenize (h : tokenize t = .ok raw) (ha : a ∈ raw) (hkind : a.kind = .string) :
    a.text.IsStringLiteral := by
  obtain ⟨l, hl, hcls, htext⟩ := (reads_of_tokenize h).exists_string ha hkind
  obtain ⟨part, -, rfl⟩ := exists_of_mem_lexemes hl
  rw [htext]
  exact Lexeme.isStringLiteral_of_cls_eq_string hcls

/-- Joining makes names only. -/
theorem Joins.mem_or_kind_eq_name (h : Joins fine coarse) (ha : a ∈ coarse) : a ∈ fine ∨ a.kind = .name := by
  induction h with
  | nil => cases ha
  | keep hstretch h ih =>
    rcases List.mem_cons.1 ha with rfl | ha
    · exact Or.inl List.mem_cons_self
    · exact (ih ha).imp_left (List.mem_cons_of_mem _)
  | merge hid hlength herror h ih =>
    rcases List.mem_cons.1 ha with rfl | ha
    · exact Or.inr rfl
    · exact (ih ha).imp_left (List.mem_append_right _)

theorem mem_or_kind_eq_name_of_normalize (h : normalize raw = .ok joined) (ha : a ∈ joined) :
    a ∈ raw ∨ a.kind = .name := by
  rw [normalize_of_isChain (coarsens_of_normalize h).1] at h
  obtain rfl := Except.ok.inj h
  obtain ⟨run, hrun, ha⟩ := List.mem_flatten.1 ha
  obtain ⟨stretch, hstretch, rfl⟩ := List.mem_map.1 hrun
  refine ((joins_join stretch).mem_or_kind_eq_name ha).imp_left fun hmem => ?_
  rw [← List.flatten_splitBy RawToken.continues raw]
  exact List.mem_flatten_of_mem hstretch hmem

namespace Source

theorem exists_of_mem_build {b : Token} (h : b ∈ (build t raw).tokens) : b.toRawToken ∈ raw := by
  simp only [build, List.mem_toArray, List.mem_mapIdx] at h
  obtain ⟨i, hi, rfl⟩ := h
  exact List.getElem_mem hi

theorem isStringLiteral_of_ofText? {source : Source} (h : ofText? t = .ok source) {b : Token}
    (hb : b ∈ source.tokens) (hkind : b.kind = .string) : b.text.IsStringLiteral := by
  obtain ⟨raw, hraw, h⟩ := bind_eq_ok h
  obtain ⟨joined, hjoined, rfl⟩ := exists_of_ofTokens? h
  rcases mem_or_kind_eq_name_of_normalize hjoined (exists_of_mem_build hb) with hmem | hname
  · exact isStringLiteral_of_tokenize hraw hmem hkind
  · cases hname.symm.trans hkind

end Source

open Lexeme in
/-- **A string ends at the first quote that no backslash protects.** The text after an opening quote is
measured up to the end of the first quote at the end of some units, none of which may be a bare line feed if
the quote is single; it has no measure if there is none. The lexer takes the opening and what has been
measured, or the opening alone. So the tokens of a text that are strings, before and after identifiers are
joined, are two marks at most, a quote, a body that the quote does not close before its end, and the same
quote. -/
theorem strings_end_at_first_quote :
    (∀ quote ∈ quotes, ∀ t : Text,
      ((closeLength? quote t).isSome = true ↔ ∃ units, Closes quote t units) ∧
      ∀ n, closeLength? quote t = some n ↔
        ∃ units, ClosesFirst quote t units ∧ (units.flatten ++ quote).length = n) ∧
    (∀ (t : Text) (marks : Nat) (quote : Text), opening? t = some (marks, quote) →
      (∀ units, ClosesFirst quote (t.drop (marks + quote.length)) units →
        first t = ⟨.string, t.take marks ++ quote ++ (units.flatten ++ quote)⟩) ∧
      ((¬ ∃ units, Closes quote (t.drop (marks + quote.length)) units) →
        first t = ⟨.broken, t.take marks ++ quote⟩)) ∧
    (∀ t raw, tokenize t = .ok raw → ∀ a ∈ raw, a.kind = .string → a.text.IsStringLiteral) ∧
    ∀ t source, Source.ofText? t = .ok source →
      ∀ b ∈ source.tokens, b.kind = .string → b.text.IsStringLiteral := by
  refine ⟨fun quote hquote t => ?_, fun t marks quote hopening => ?_, ?_, ?_⟩
  · exact ⟨closeLength?_isSome_iff hquote, fun n => closeLength?_eq_some_iff hquote⟩
  · exact ⟨fun units => first_of_closesFirst hopening, first_of_not_closes hopening⟩
  · intro t raw hraw a ha hkind
    exact isStringLiteral_of_tokenize hraw ha hkind
  · intro t source hsource b hb hkind
    exact Source.isStringLiteral_of_ofText? hsource hb hkind

/-- A string with a quote in it that a backslash protects, and one that does not close. -/
def protectedText : Text := "rb'a\\'b' \"c".toList

/-- The string of `protectedText` that closes. -/
def protectedToken : RawToken :=
  ⟨.string, "rb'a\\'b'".toList, ⟨1, 0⟩, ⟨1, 8⟩, protectedText⟩

open Lexeme in
theorem strings_end_at_first_quote_protectedText :
    opening? protectedText = some (2, ['\'']) ∧ closeLength? ['\''] (protectedText.drop 3) = some 5 ∧
      (∃ units, ClosesFirst ['\''] (protectedText.drop 3) units ∧
        first protectedText = ⟨.string, ['r', 'b', '\''] ++ (units.flatten ++ ['\''])⟩) ∧
      opening? (protectedText.drop 9) = some (0, ['"']) ∧
      first (protectedText.drop 9) = ⟨.broken, ['"']⟩ ∧
      (∃ raw, tokenize protectedText = .ok raw ∧ protectedToken ∈ raw ∧
        protectedToken.text.IsStringLiteral) ∧
      ∃ source, Source.ofText? protectedText = .ok source ∧ ∃ b ∈ source.tokens,
        b.toRawToken = protectedToken ∧ b.text.IsStringLiteral := by
  obtain ⟨hmeasure, hlexeme, htokens, hjoined⟩ := strings_end_at_first_quote
  have hopening : opening? protectedText = some (2, ['\'']) := by decide +kernel
  have hopening' : opening? (protectedText.drop 9) = some (0, ['"']) := by decide +kernel
  have hclose : closeLength? ['\''] (protectedText.drop 3) = some 5 := by decide +kernel
  have hclose' : ¬ (closeLength? ['"'] (protectedText.drop 10)).isSome = true := by decide +kernel
  have hraw : (tokenize protectedText).toOption.any (protectedToken ∈ ·) = true := by decide +kernel
  have hsource : (Source.ofText? protectedText).toOption.any
      (fun s => s.tokens.any (·.toRawToken == protectedToken)) = true := by decide +kernel
  obtain ⟨units, hunits, -⟩ := ((hmeasure ['\''] (by decide) _).2 5).1 hclose
  have hopen : ¬ ∃ units, Closes ['"'] (protectedText.drop 10) units :=
    fun h => hclose' ((hmeasure ['"'] (by decide) _).1.2 h)
  rcases htokenize : tokenize protectedText with e | raw <;> rw [htokenize] at hraw
  · cases hraw
  have hmem : protectedToken ∈ raw := of_decide_eq_true hraw
  rcases hread : Source.ofText? protectedText with e | source <;> rw [hread] at hsource
  · cases hsource
  obtain ⟨b, hb, heq⟩ := Array.any_eq_true'.1 hsource
  have htoken : b.toRawToken = protectedToken := eq_of_beq heq
  have hkind : b.kind = .string := congrArg RawToken.kind htoken
  exact ⟨hopening, hclose, ⟨units, hunits, (hlexeme _ _ _ hopening).1 units hunits⟩, hopening',
    (hlexeme _ _ _ hopening').2 hopen, ⟨raw, rfl, hmem, htokens _ raw htokenize _ hmem rfl⟩,
    source, rfl, b, hb, htoken, hjoined _ source hread b hb hkind⟩

end SourceSpans
