import SourceSpans.Proofs.Condensed.Search
import SourceSpans.Proofs.Text.Boundaries

/-!
# Literals without comments

Strings, numbers and tokens of a kind are looked for token by token, and a literal of this sort is found at
the same ranks in a source and in its condensed source. A text is looked for in the source, not in the
tokens: several tokens may spell it, with anything between them. It is found at the same ranks if a single
token always spells it, which is no comment and no line break (`Source.SpelledByOne`). What this asks of a
literal is `Literal.IsSettledIn`; the result is `Marker.Condenses.findLiteral?_eq`.
-/

namespace SourceSpans

/-- Wherever a source spells a text from the start of a token to the stop of a token, and the first of them
is not empty, this token alone is the text. No comment and no line break is the text. -/
structure Source.SpelledByOne (s : Source) (w : Text) : Prop where
  ne_of_isNonCoding : ∀ t ∈ s.tokens, t.kind.isNonCoding = true → t.text ≠ w
  text_eq : ∀ (i j : Nat) (t u : Token), i ≤ j → s.tokens[i]? = some t → s.tokens[j]? = some u →
    t.text ≠ [] → Text.slice? s.text t.startOffset u.stopOffset = some w → t.text = w

instance (s : Source) (w : Text) : Decidable (s.SpelledByOne w) :=
  decidable_of_iff ((∀ t ∈ s.tokens, t.kind.isNonCoding = true → t.text ≠ w) ∧
      ∀ i j : Fin s.tokens.size, i ≤ j → s.tokens[i].text ≠ [] →
        Text.slice? s.text s.tokens[i].startOffset s.tokens[j].stopOffset = some w →
          s.tokens[i].text = w) <| by
    constructor
    · rintro ⟨hne, heq⟩
      refine ⟨hne, fun i j t u hij ht hu => ?_⟩
      obtain ⟨hi, rfl⟩ := Array.getElem?_eq_some_iff.1 ht
      obtain ⟨hj, rfl⟩ := Array.getElem?_eq_some_iff.1 hu
      exact heq ⟨i, hi⟩ ⟨j, hj⟩ hij
    · intro h
      exact ⟨h.ne_of_isNonCoding, fun i j hij =>
        h.text_eq i j _ _ hij (Array.getElem?_eq_getElem i.2) (Array.getElem?_eq_getElem j.2)⟩

/-- Whether a literal is told by single tokens that are not passed over. -/
def Literal.IsSettledIn (s : Source) : Literal → Prop
  | .text t => s.SpelledByOne t
  | .strings => True
  | .number _ => True
  | .token kind => kind.isNonCoding = false
  | .words ws => ∀ w ∈ ws, s.SpelledByOne w

instance (s : Source) : (literal : Literal) → Decidable (literal.IsSettledIn s)
  | .text t => inferInstanceAs (Decidable (s.SpelledByOne t))
  | .strings => inferInstanceAs (Decidable True)
  | .number _ => inferInstanceAs (Decidable True)
  | .token kind => inferInstanceAs (Decidable (kind.isNonCoding = false))
  | .words ws => inferInstanceAs (Decidable (∀ w ∈ ws, s.SpelledByOne w))

/-- Whether a token is a text, not an empty one. -/
def Token.spells (w : Text) (t : Token) : Bool := !t.text.isEmpty && t.text == w

theorem Token.isLexical_spells (w : Text) : IsLexical (Token.spells w) :=
  fun t u _ htext => by simp only [spells, htext]

namespace Marker

variable {m c : Marker} {w : Text}

/-! ### Texts -/

theorem spellFrom_eq_none {start i count : Nat} (h : ∀ j, i ≤ j → j < i + count →
    Text.slice? m.source.text start (m.source.stopOffset j) ≠ some w) :
    m.spellFrom w start i count = none := by
  induction count generalizing i with
  | zero => rfl
  | succ count ih =>
    have hi := h i le_rfl (by omega)
    unfold spellFrom
    rcases hslice : Text.slice? m.source.text start (m.source.stopOffset i) with _ | slice
    · rfl
    · have hne : slice ≠ w := by
        rintro rfl
        exact hi hslice
      dsimp only
      rw [if_neg hne, ih fun j hij hj => h j (by omega) (by omega), ite_self]

/-- If no run of several tokens spells a text, only a token that is the text does. -/
theorem spellAt?_eq (h : w ≠ [] → ∀ i j t, i < j → j < m.size → m.source.tokens[i]? = some t →
      t.text ≠ [] → t.text ≠ w →
        Text.slice? m.source.text t.startOffset (m.source.stopOffset j) ≠ some w) (i : Nat) :
    m.spellAt? w i = if m.source.holdsAt (Token.spells w) i then some i else none := by
  unfold spellAt? Source.holdsAt
  rcases htoken : m.source.tokens[i]? with _ | t
  · rfl
  dsimp only
  unfold Token.spells
  by_cases hempty : t.text = []
  · simp [hempty]
  by_cases htext : t.text = w
  · simp [htext, htext ▸ hempty]
  have hspells : ¬ (!t.text.isEmpty && t.text == w) = true := by simp [htext]
  rw [if_neg htext, if_neg hspells]
  split_ifs with hprefix
  · rfl
  · refine spellFrom_eq_none fun j hij hj => h ?_ i j t (by omega) (by omega) htoken hempty htext
    -- `w` begins with the text of a token that is not empty
    rintro rfl
    simp [hempty] at hprefix

theorem spellAt?_of_spelledByOne (h : m.source.SpelledByOne w) (i : Nat) :
    m.spellAt? w i = if m.source.holdsAt (Token.spells w) i then some i else none := by
  refine spellAt?_eq (fun _ i j t hij hj htoken hempty htext hslice => htext ?_) i
  have hlast : m.source.tokens[j]? = some m.source.tokens[j] := Array.getElem?_eq_getElem hj
  unfold Source.stopOffset at hslice
  rw [hlast] at hslice
  exact h.text_eq i j t _ hij.le htoken hlast hempty hslice

theorem not_isPassed_of_spells (h : m.source.SpelledByOne w) {i : Nat}
    (hi : m.source.holdsAt (Token.spells w) i = true) : m.source.isPassed i = false := by
  obtain ⟨t, htoken, hspells⟩ := Source.holdsAt_eq_true_iff.1 hi
  have htext : t.text = w := by
    simp only [Token.spells, Bool.and_eq_true, beq_iff_eq] at hspells
    exact hspells.2
  rw [Source.isPassed_eq htoken]
  rcases hpassed : t.kind.isNonCoding with _ | _
  · rfl
  · exact absurd htext (h.ne_of_isNonCoding t (Array.mem_of_getElem? htoken) hpassed)

namespace Condenses

variable (h : c.Condenses m)

include h

/-- There is no text to spell in the condensed source but that of single tokens. -/
theorem spellAt?_condensed (w : Text) (k : Nat) :
    c.spellAt? w k = if c.source.holdsAt (Token.spells w) k then some k else none := by
  refine spellAt?_eq (fun hw i j t _ _ _ _ _ hslice => hw ?_) k
  obtain ⟨u, v, happend, -, -⟩ := Text.slice?_eq_some_iff.1 hslice
  have hnil : c.source.text = [] := by
    rw [h.source_eq]
    rfl
  rw [hnil] at happend
  simp_all

theorem spellAt?_nth (hw : m.source.SpelledByOne w) (k : Nat) :
    m.spellAt? w (m.source.nth k) = (c.spellAt? w k).map m.source.nth := by
  rw [spellAt?_of_spelledByOne hw, h.spellAt?_condensed,
    h.holdsAt_nth (Token.isLexical_spells w)]
  split_ifs <;> rfl

theorem findText?_eq (hw : m.source.SpelledByOne w) (i : Nat) :
    m.findText? w i = (c.findText? w (m.source.rank i)).map m.source.nthSpan := by
  have hpassed : ∀ j, (m.spellAt? w j).isSome = true → m.source.isPassed j = false := by
    intro j hj
    rw [spellAt?_of_spelledByOne hw] at hj
    refine not_isPassed_of_spells hw (w := w) ?_
    by_contra hnot
    rw [if_neg hnot] at hj
    cases hj
  have hrank : ∀ k, (m.spellAt? w (m.source.nth k)).isSome = (c.spellAt? w k).isSome := by
    intro k
    rw [h.spellAt?_nth hw, Option.isSome_map]
  unfold findText?
  rw [h.findUp_eq hpassed hrank]
  refine bind_map_eq _ fun k => ?_
  rw [h.spellAt?_nth hw, Option.map_map, Option.map_map]
  rfl

theorem findWordsAfter?_nthSpan {ws : List Text} (hws : ∀ w ∈ ws, m.source.SpelledByOne w)
    (span : Span) :
    m.findWordsAfter? (m.source.nthSpan span) ws =
      (c.findWordsAfter? span ws).map m.source.nthSpan := by
  induction ws generalizing span with
  | nil => rfl
  | cons w ws ih =>
    have hrest := ih fun w hw => hws w (List.mem_cons_of_mem _ hw)
    unfold findWordsAfter?
    rw [h.findText?_eq (hws w List.mem_cons_self), Source.last_nthSpan, Source.rank_nth_add_one]
    exact bind_map_eq _ fun s => hrest ⟨span.first, s.last⟩

theorem findWords?_eq {ws : List Text} (hws : ∀ w ∈ ws, m.source.SpelledByOne w) (i : Nat) :
    m.findWords? i ws = (c.findWords? (m.source.rank i) ws).map m.source.nthSpan := by
  cases ws with
  | nil => rfl
  | cons w ws =>
    unfold findWords?
    dsimp only
    rw [h.findText?_eq (hws w List.mem_cons_self)]
    exact bind_map_eq _
      (h.findWordsAfter?_nthSpan fun w hw => hws w (List.mem_cons_of_mem _ hw))

/-! ### Tokens of a kind -/

theorem findKind?_eq {kind : TokenKind} (hkind : kind.isNonCoding = false) (i : Nat) :
    m.findKind? kind i = (c.findKind? kind (m.source.rank i)).map m.source.nth :=
  h.findUp_eq (fun _ => not_isPassed_of_hasKind hkind) (h.hasKind_nth kind) i

/-- A run of strings ends before the next coding token that is no string, or at the end. -/
theorem rank_stringsStop_nth (k : Nat) :
    m.source.rank ((findUp (fun j => m.isCoding j && !m.hasKind .string j) (m.source.nth k + 1)
        m.size).getD m.size) =
      (findUp (fun j => c.isCoding j && !c.hasKind .string j) (k + 1) c.size).getD c.size := by
  have hrank : ∀ k, (m.isCoding (m.source.nth k) && !m.hasKind .string (m.source.nth k)) =
      (c.isCoding k && !c.hasKind .string k) := by
    intro k
    rw [h.isCoding_nth, h.hasKind_nth]
  rw [h.findUp_eq (fun _ => not_isPassed_of_isCoding_and) hrank, Source.rank_nth_add_one]
  rcases findUp (fun j => c.isCoding j && !c.hasKind .string j) (k + 1) c.size with _ | stop
  · exact h.size_eq.symm
  · exact m.source.rank_nth stop

theorem findStrings?_eq (i : Nat) :
    m.findStrings? i = (c.findStrings? (m.source.rank i)).map m.source.nthSpan := by
  unfold findStrings?
  rw [h.findKind?_eq rfl, Option.map_map, Option.map_map]
  refine congrFun (congrArg _ (funext fun k => congrArg (Span.mk (m.source.nth k)) ?_)) _
  rw [Source.findDown_eq (fun _ => not_isPassed_of_hasKind rfl) (h.hasKind_nth .string),
    h.rank_stringsStop_nth, Source.rank_nth, Option.getD_map]

theorem findNumber?_eq (isNegative : Bool) (i : Nat) :
    m.findNumber? isNegative i =
      (c.findNumber? isNegative (m.source.rank i)).map m.source.nthSpan := by
  unfold findNumber?
  rw [h.findKind?_eq rfl, Option.map_map, Option.map_map]
  refine congrFun (congrArg _ (funext fun k => ?_)) _
  have hminus := h.holdsAt_nth (Token.isLexical_fits .op (some ['-']))
  show Span.mk _ _ = Span.mk _ _
  dsimp only
  rw [h.codingBefore?_eq, Source.rank_nth, filter_map_eq _ hminus, Option.getD_map]
  cases isNegative <;> rfl

/-- **A settled literal is found at the ranks where the condensed source has it.** -/
theorem findLiteral?_eq {literal : Literal} (hliteral : literal.IsSettledIn m.source) (i : Nat) :
    m.findLiteral? literal i =
      (c.findLiteral? literal (m.source.rank i)).map m.source.nthSpan := by
  cases literal with
  | text t => exact h.findText?_eq hliteral i
  | strings => exact h.findStrings?_eq i
  | number isNegative => exact h.findNumber?_eq isNegative i
  | token kind =>
    unfold findLiteral?
    dsimp only
    rw [h.findKind?_eq hliteral, Option.map_map, Option.map_map]
    rfl
  | words ws => exact h.findWords?_eq hliteral i

end Condenses

end Marker

end SourceSpans
