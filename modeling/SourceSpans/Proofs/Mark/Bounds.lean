import Mathlib.Order.Nat
import Mathlib.Tactic.Common
import SourceSpans.Mark.Pass

/-!
# Where the tokens of a node lie

Marking looks for tokens from the cursor on and extends what it finds. Here it is said once for each
search and each extension in which bounds its answer lies:

* **Searches** answer with a span `Within` the place they start at and the number of tokens:
  patterns (`forwardAt?_bounds`, `within_of_search?_eq_some`) and literals
  (`within_of_findLiteral?_eq_some`).
* **Extensions** never drop a token and never take one before the floor of the node
  (`Extends`): the partners of brackets (`extends_balance`), parentheses, `lead` and `trail`, and all
  of them together (`extends_extend`).

What is proved about marking later on uses these statements and opens none of the searches.
-/

namespace SourceSpans

/-- A span of at least one token from `lo` on and before `hi`. -/
structure Span.Within (s : Span) (lo hi : Nat) : Prop where
  lo_le : lo ≤ s.first
  first_le_last : s.first ≤ s.last
  last_lt : s.last < hi

theorem Span.Within.mono {s : Span} {lo lo' hi : Nat} (h : s.Within lo hi) (hlo : lo' ≤ lo) :
    s.Within lo' hi :=
  ⟨hlo.trans h.lo_le, h.first_le_last, h.last_lt⟩

/-- A span that holds another one. -/
def Span.Covers (outer inner : Span) : Prop := outer.first ≤ inner.first ∧ inner.last ≤ outer.last

theorem Span.Covers.refl (s : Span) : s.Covers s := ⟨le_rfl, le_rfl⟩

theorem Span.Covers.trans {a b c : Span} (hab : a.Covers b) (hbc : b.Covers c) : a.Covers c :=
  ⟨hab.1.trans hbc.1, hbc.2.trans hab.2⟩

theorem Span.Within.union {a b : Span} {lo hi : Nat} (ha : a.Within lo hi) (hb : b.Within lo hi) :
    (a.union b).Within lo hi := by
  obtain ⟨ha1, ha2, ha3⟩ := ha
  obtain ⟨hb1, hb2, hb3⟩ := hb
  constructor <;> simp only [Span.union] <;> omega

theorem Span.union_covers_left (a b : Span) : (a.union b).Covers a := by
  constructor <;> simp only [Span.union] <;> omega

theorem Span.union_covers_right (a b : Span) : (a.union b).Covers b := by
  constructor <;> simp only [Span.union] <;> omega

namespace Marker

variable {m : Marker}

/-! ### Sequences of patterns -/

theorem codingAfter?_bounds {i j : Nat} (h : m.codingAfter? i = some j) : i < j ∧ j < m.size := by
  obtain ⟨hi, hj, -⟩ := findUp_eq_some_iff.1 h
  exact ⟨hi, hj⟩

theorem codingBefore?_bounds {i floor j : Nat} (h : m.codingBefore? i floor = some j) :
    floor ≤ j ∧ j < i := by
  obtain ⟨hfloor, hj, -⟩ := findDown_eq_some_iff.1 h
  exact ⟨hfloor, hj⟩

theorem skipTo?_bounds {p : Pattern} {start i j : Nat} (h : m.skipTo? p start i = some j) :
    i < j ∧ j < m.size := by
  obtain ⟨h, -⟩ := Option.filter_eq_some_iff.1 h
  obtain ⟨hi, hj, -⟩ := findUp_eq_some_iff.1 h
  exact ⟨hi, hj⟩

theorem forwardFrom_bounds {start : Nat} {ps : PatternSequence} :
    ∀ {skipping : Bool} {i j : Nat}, m.forwardFrom start skipping i ps = some j → i < m.size →
      i ≤ j ∧ j < m.size := by
  induction ps with
  | nil =>
    intro skipping i j h hi
    obtain rfl := Option.some.inj h
    exact ⟨le_rfl, hi⟩
  | cons p ps ih =>
    intro skipping i j h hi
    rw [forwardFrom] at h
    split_ifs at h
    · exact ih h hi
    · obtain ⟨k, hk, h⟩ := Option.bind_eq_some_iff.1 h
      obtain ⟨hik, hk⟩ := skipTo?_bounds hk
      obtain ⟨hkj, hj⟩ := ih h hk
      exact ⟨by omega, hj⟩
    · obtain ⟨k, hk, h⟩ := Option.bind_eq_some_iff.1 h
      obtain ⟨hik, hk⟩ := codingAfter?_bounds (Option.filter_eq_some_iff.1 hk).1
      obtain ⟨hkj, hj⟩ := ih h hk
      exact ⟨by omega, hj⟩

theorem forwardAt?_bounds {ps : PatternSequence} {i j : Nat} (h : m.forwardAt? ps i = some j) :
    i ≤ j ∧ j < m.size := by
  rcases ps with _ | ⟨p, ps⟩
  · cases h
  rw [forwardAt?] at h
  split_ifs at h with hp
  exact forwardFrom_bounds h (Source.lt_size_of_holdsAt hp)

theorem anyForwardAt?_bounds {alternatives : List PatternSequence} {i j : Nat}
    (h : m.anyForwardAt? alternatives i = some j) : i ≤ j ∧ j < m.size := by
  obtain ⟨ps, -, h⟩ := List.exists_of_findSome?_eq_some h
  exact forwardAt?_bounds h

/-- The first match of a sequence lies at or after the place where the search begins. -/
theorem within_of_search?_eq_some {alternatives : List PatternSequence} {i floor : Nat} {s : Span}
    (h : m.search? alternatives i floor = some s) : s.Within i m.size := by
  obtain ⟨j, hj, h⟩ := Option.bind_eq_some_iff.1 h
  obtain ⟨last, hlast, rfl⟩ := Option.map_eq_some_iff.1 h
  obtain ⟨hij, -⟩ := findUp_eq_some_iff.1 (Option.filter_eq_some_iff.1 hj).1
  obtain ⟨hjl, hl⟩ := anyForwardAt?_bounds hlast
  exact ⟨hij, hjl, hl⟩

theorem within_of_introAt?_eq_some {r : Rule} {cursor : Nat} {s : Span}
    (h : m.introAt? r cursor = some s) : s.Within cursor m.size := by
  obtain ⟨i, hi, h⟩ := Option.bind_eq_some_iff.1 h
  obtain ⟨last, hlast, rfl⟩ := Option.map_eq_some_iff.1 h
  obtain ⟨hci, -⟩ := findUp_eq_some_iff.1 hi
  obtain ⟨hil, hl⟩ := anyForwardAt?_bounds hlast
  exact ⟨hci, hil, hl⟩

/-! ### Literals -/

theorem spellFrom_bounds {text : Text} {start count : Nat} :
    ∀ {i j : Nat}, m.spellFrom text start i count = some j → i ≤ j ∧ j < i + count := by
  induction count with
  | zero => intro i j h; cases h
  | succ count ih =>
    intro i j h
    rw [spellFrom] at h
    split at h
    · cases h
    split_ifs at h
    · obtain rfl := Option.some.inj h
      omega
    · have := ih h
      omega

theorem spellAt?_bounds {text : Text} {i j : Nat} (h : m.spellAt? text i = some j) :
    i ≤ j ∧ j < m.size := by
  unfold spellAt? at h
  split at h
  · cases h
  rename_i t ht
  have hi : i < m.size := (Array.getElem?_eq_some_iff.1 ht).1
  split_ifs at h
  · obtain rfl := Option.some.inj h
    exact ⟨le_rfl, hi⟩
  · have := spellFrom_bounds h
    omega

theorem within_of_findText?_eq_some {text : Text} {i : Nat} {s : Span}
    (h : m.findText? text i = some s) : s.Within i m.size := by
  obtain ⟨j, hj, h⟩ := Option.bind_eq_some_iff.1 h
  obtain ⟨last, hlast, rfl⟩ := Option.map_eq_some_iff.1 h
  obtain ⟨hij, -⟩ := findUp_eq_some_iff.1 hj
  obtain ⟨hjl, hl⟩ := spellAt?_bounds hlast
  exact ⟨hij, hjl, hl⟩

theorem within_of_findWordsAfter?_eq_some {i : Nat} {ws : List Text} :
    ∀ {a s : Span}, a.Within i m.size → m.findWordsAfter? a ws = some s → s.Within i m.size := by
  induction ws with
  | nil =>
    intro a s ha h
    obtain rfl := Option.some.inj h
    exact ha
  | cons w ws ih =>
    intro a s ha h
    obtain ⟨b, hb, h⟩ := Option.bind_eq_some_iff.1 h
    obtain ⟨hlo, hb, hlt⟩ := within_of_findText?_eq_some hb
    have hfirst : a.first ≤ b.last := by
      have := ha.first_le_last
      omega
    exact ih (a := ⟨a.first, b.last⟩) ⟨ha.lo_le, hfirst, hlt⟩ h

theorem findDown_getD_bounds {p : Nat → Bool} {i stop n : Nat} (hi : i < n) (hstop : stop ≤ n) :
    i ≤ (findDown p i stop).getD i ∧ (findDown p i stop).getD i < n := by
  rcases h : findDown p i stop with _ | j
  · exact ⟨le_rfl, hi⟩
  · obtain ⟨hij, hj, -⟩ := findDown_eq_some_iff.1 h
    exact ⟨hij, hj.trans_le hstop⟩

theorem within_of_findStrings?_eq_some {i : Nat} {s : Span} (h : m.findStrings? i = some s) :
    s.Within i m.size := by
  obtain ⟨first, hfirst, rfl⟩ := Option.map_eq_some_iff.1 h
  obtain ⟨hi, hlt, -⟩ := findUp_eq_some_iff.1 hfirst
  have hstop : (findUp (fun j => m.isCoding j && !m.hasKind .string j) (first + 1) m.size).getD
      m.size ≤ m.size := by
    rcases hf : findUp (fun j => m.isCoding j && !m.hasKind .string j) (first + 1) m.size with _ | j
    · exact le_rfl
    · exact (findUp_eq_some_iff.1 hf).2.1.le
  obtain ⟨hle, hlast⟩ := findDown_getD_bounds (p := m.hasKind .string) hlt hstop
  exact ⟨hi, hle, hlast⟩

theorem within_of_findNumber?_eq_some {isNegative : Bool} {i : Nat} {s : Span}
    (h : m.findNumber? isNegative i = some s) : s.Within i m.size := by
  obtain ⟨index, hindex, rfl⟩ := Option.map_eq_some_iff.1 h
  obtain ⟨hi, hlt, -⟩ := findUp_eq_some_iff.1 hindex
  rcases isNegative with _ | _
  · exact ⟨hi, le_rfl, hlt⟩
  · rcases hminus : (m.codingBefore? index i).filter
        (m.source.holdsAt fun t => t.fits .op (some ['-'])) with _ | minus
    · exact ⟨hi, le_rfl, hlt⟩
    · obtain ⟨hfloor, hlt'⟩ := codingBefore?_bounds (Option.filter_eq_some_iff.1 hminus).1
      exact ⟨hfloor, hlt'.le, hlt⟩

/-- The tokens of a literal lie at or after the place where the search begins. -/
theorem within_of_findLiteral?_eq_some {literal : Literal} {i : Nat} {s : Span}
    (h : m.findLiteral? literal i = some s) : s.Within i m.size := by
  cases literal with
  | text t => exact within_of_findText?_eq_some h
  | strings => exact within_of_findStrings?_eq_some h
  | number isNegative => exact within_of_findNumber?_eq_some h
  | token kind =>
    obtain ⟨j, hj, rfl⟩ := Option.map_eq_some_iff.1 h
    obtain ⟨hi, hlt, -⟩ := findUp_eq_some_iff.1 hj
    exact ⟨hi, le_rfl, hlt⟩
  | words ws =>
    rcases ws with _ | ⟨w, ws⟩
    · cases h
    · obtain ⟨a, ha, h⟩ := Option.bind_eq_some_iff.1 h
      exact within_of_findWordsAfter?_eq_some (within_of_findText?_eq_some ha) h

theorem within_of_leaf?_eq_ok {literal? : Option Literal} {rule? : Option Rule}
    {parentFloor cursor : Nat} {s : Span}
    (h : m.leaf? literal? rule? parentFloor cursor = .ok (some s)) : s.Within cursor m.size := by
  unfold leaf? at h
  split at h
  · split at h
    · rename_i span hspan
      simp only [Except.ok.injEq, Option.some.injEq] at h
      exact h ▸ within_of_findLiteral?_eq_some hspan
    · cases h
  · simp only [Except.ok.injEq] at h
    obtain ⟨r, -, h⟩ := Option.bind_eq_some_iff.1 h
    exact within_of_search?_eq_some h

/-! ### Extensions -/

/-- A span made larger by tokens from `floor` on. -/
structure Extends (m : Marker) (floor : Nat) (inner outer : Span) : Prop where
  within : outer.Within floor m.size
  covers : outer.Covers inner

variable {floor : Nat}

theorem Extends.refl {s : Span} (h : s.Within floor m.size) : m.Extends floor s s :=
  ⟨h, .refl s⟩

theorem Extends.trans {a b c : Span} (hab : m.Extends floor a b) (hbc : m.Extends floor b c) :
    m.Extends floor a c :=
  ⟨hbc.within, hbc.covers.trans hab.covers⟩

theorem extends_balanceFrom {children : List Span} (s : Span) (gaps : List (Nat × Nat))
    (h : s.Within floor m.size) :
    m.Extends floor s (m.balanceFrom floor children s gaps) := by
  fun_induction balanceFrom m floor children s gaps with
  | case1 s => exact .refl h
  | case2 s i stop gaps _ ih => exact ih h
  | case3 s i stop gaps _ c _ ih => exact ih h
  | case4 s i stop gaps _ _ _ ih => exact ih h
  | case5 s i stop gaps _ _ p hp hlt ih =>
    obtain ⟨hlo, hle, -⟩ := h
    have hright : m.Extends floor s ⟨s.first, p⟩ :=
      ⟨⟨hlo, hle.trans hlt.le, partner?_lt hp⟩, le_rfl, hlt.le⟩
    exact hright.trans (ih hright.within)
  | case6 s i stop gaps _ _ p _ _ hlt ih =>
    obtain ⟨-, hle, hsize⟩ := h
    have hleft : m.Extends floor s ⟨p, s.last⟩ :=
      ⟨⟨hlt.2, hlt.1.le.trans hle, hsize⟩, hlt.1.le, le_rfl⟩
    exact hleft.trans (ih hleft.within)
  | case7 s i stop gaps _ _ p _ _ _ ih => exact ih h

/-- The partners of brackets only make a span larger. -/
theorem extends_balance {children : List Span} {scanned? : Option Span} {s : Span}
    (h : s.Within floor m.size) : m.Extends floor s (m.balance floor children scanned? s) :=
  extends_balanceFrom s _ h

theorem extends_of_parenAround?_eq_some {s outer : Span} (h : s.Within floor m.size)
    (houter : m.parenAround? floor s = some outer) : m.Extends floor s outer := by
  obtain ⟨first, hfirst, houter⟩ := Option.bind_eq_some_iff.1 houter
  obtain ⟨last, hlast, houter⟩ := Option.bind_eq_some_iff.1 houter
  split_ifs at houter
  obtain rfl := Option.some.inj houter
  obtain ⟨hfloor, hlt⟩ := codingBefore?_bounds hfirst
  obtain ⟨hlt', hsize⟩ := codingAfter?_bounds hlast
  have hle := h.first_le_last
  exact ⟨⟨hfloor, by show first ≤ last; omega, hsize⟩, hlt.le, hlt'.le⟩

theorem extends_wrapAll (s : Span) (h : s.Within floor m.size) :
    m.Extends floor s (m.wrapAll floor s) := by
  fun_induction wrapAll m floor s with
  | case1 s _ => exact .refl h
  | case2 s outer houter ih =>
    have hpair := extends_of_parenAround?_eq_some h houter
    exact hpair.trans (ih hpair.within)

theorem extends_wrapped (wrap : Wrap) {s : Span} (h : s.Within floor m.size) :
    m.Extends floor s (m.wrapped wrap floor s) := by
  cases wrap with
  | none => exact .refl h
  | once =>
    rw [wrapped]
    rcases houter : m.parenAround? floor s with _ | outer
    · exact .refl h
    · exact extends_of_parenAround?_eq_some h houter
  | all => exact extends_wrapAll s h

/-- Looking through parentheses finds an extension if each attempt does. -/
theorem extends_of_reaching?_eq_some {attempt : Span → Option Span} {reach : Bool}
    (hattempt : ∀ {s found : Span}, s.Within floor m.size → attempt s = some found →
      m.Extends floor s found) (s : Span) {found : Span} (h : s.Within floor m.size)
    (hfound : m.reaching? attempt floor reach s = some found) : m.Extends floor s found := by
  fun_induction reaching? m attempt floor reach s with
  | case1 s result hs =>
    obtain rfl := Option.some.inj hfound
    exact hattempt h hs
  | case2 => cases hfound
  | case3 s _ _ outer houter ih =>
    have hpair := extends_of_parenAround?_eq_some h houter
    exact hpair.trans (ih hpair.within hfound)
  | case4 => cases hfound

theorem leadFrom_bounds {ps : List Pattern} :
    ∀ {i j : Nat}, m.leadFrom floor i ps = some j → floor ≤ i → floor ≤ j ∧ j ≤ i := by
  induction ps with
  | nil =>
    intro i j h hi
    obtain rfl := Option.some.inj h
    exact ⟨hi, le_rfl⟩
  | cons p ps ih =>
    intro i j h hi
    obtain ⟨k, hk, h⟩ := Option.bind_eq_some_iff.1 h
    obtain ⟨hfloor, hki⟩ := codingBefore?_bounds (Option.filter_eq_some_iff.1 hk).1
    obtain ⟨hj, hjk⟩ := ih h hfloor
    exact ⟨hj, hjk.trans hki.le⟩

theorem trailFrom_bounds {first : Nat} {ps : PatternSequence} :
    ∀ {i j : Nat}, m.trailFrom first i ps = some j → i < m.size → i ≤ j ∧ j < m.size := by
  induction ps with
  | nil =>
    intro i j h hi
    obtain rfl := Option.some.inj h
    exact ⟨le_rfl, hi⟩
  | cons p ps ih =>
    intro i j h hi
    obtain ⟨k, hk, h⟩ := Option.bind_eq_some_iff.1 h
    obtain ⟨hik, hk⟩ := codingAfter?_bounds (Option.filter_eq_some_iff.1 hk).1
    obtain ⟨hkj, hj⟩ := ih h hk
    exact ⟨by omega, hj⟩

theorem extends_of_leadOf?_eq_some {r : Rule} {s found : Span} (h : s.Within floor m.size)
    (hfound : m.leadOf? r floor s = some found) : m.Extends floor s found := by
  obtain ⟨first, hfirst, rfl⟩ := Option.map_eq_some_iff.1 hfound
  obtain ⟨ps, -, hps⟩ := List.exists_of_findSome?_eq_some hfirst
  obtain ⟨hfloor, hle⟩ := leadFrom_bounds hps h.lo_le
  exact ⟨⟨hfloor, hle.trans h.first_le_last, h.last_lt⟩, hle, le_rfl⟩

theorem extends_of_trailOf?_eq_some {r : Rule} {s found : Span} (h : s.Within floor m.size)
    (hfound : m.trailOf? r s = some found) : m.Extends floor s found := by
  obtain ⟨last, hlast, rfl⟩ := Option.map_eq_some_iff.1 hfound
  obtain ⟨ps, -, hps⟩ := List.exists_of_findSome?_eq_some hlast
  obtain ⟨hle, hsize⟩ := trailFrom_bounds hps h.last_lt
  exact ⟨⟨h.lo_le, h.first_le_last.trans hle, hsize⟩, le_rfl, hle⟩

theorem extends_getD {s : Span} {found? : Option Span} (h : s.Within floor m.size)
    (hfound : ∀ found, found? = some found → m.Extends floor s found) :
    m.Extends floor s (found?.getD s) := by
  rcases found? with _ | found
  · exact .refl h
  · exact hfound found rfl

theorem extends_withLead (r : Rule) {s : Span} (h : s.Within floor m.size) :
    m.Extends floor s (m.withLead r floor s) := by
  rw [withLead]
  split_ifs
  · exact .refl h
  · exact extends_getD h fun found hfound =>
      extends_of_reaching?_eq_some extends_of_leadOf?_eq_some s h hfound

theorem extends_withTrail (r : Rule) {s : Span} (h : s.Within floor m.size) :
    m.Extends floor s (m.withTrail r floor s) := by
  rw [withTrail]
  split_ifs
  · exact .refl h
  · exact extends_getD h fun found hfound =>
      extends_of_reaching?_eq_some extends_of_trailOf?_eq_some s h hfound

/-- **The span of a node holds all that was found for it and begins at its floor or after.** -/
theorem extends_extend {rule? : Option Rule} {children : List Span} {s : Span}
    (h : s.Within floor m.size) : m.Extends floor s (m.extend rule? floor children s) := by
  have hinner : m.Extends floor s (m.balance floor children none s) := extends_balance h
  unfold extend
  rcases rule? with _ | r
  · exact hinner
  · have hlead := hinner.trans (extends_withLead r hinner.within)
    have htrail := hlead.trans (extends_withTrail r hlead.within)
    have hwrap := htrail.trans (extends_wrapped r.wrap htrail.within)
    exact hwrap.trans (extends_balance hwrap.within)

end Marker

end SourceSpans
