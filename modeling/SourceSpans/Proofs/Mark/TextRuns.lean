import SourceSpans.Proofs.Mark.Lookups
import SourceSpans.Proofs.Mark.Tokens
import SourceSpans.Proofs.Mark.Visits

/-!
# Runs of tokens that spell a text

A text is looked for among the tokens by what the source spells from the start of one token to the end of
another one (`Source.Spells`). The search passes over tokens that cannot begin the text, takes a token that
is the text at once, and gives up when what is spelled grows too long. Still it finds the first and shortest
run of all (`Marker.findText?_eq_some_iff`), and so a leaf with the text has the text as its own
(`texts_located`).

* **Longer runs** (`Source.spelling?_isPrefix`): of two runs that begin with one token the shorter one
  spells a beginning of what the longer one spells. So the first token has to begin the text, and once a
  run spells too much every longer one does.
* **Later runs** (`Source.Spells.last_lt_last`): of two runs that spell one text the one that begins later
  ends later, since the first token of the other one is not empty.
* **No brackets** (`Marker.leastClosed_of_forall_partner?`): tokens without brackets are closed as they
  are, so the leaf gets the run and nothing else.
-/

namespace SourceSpans

namespace Source

variable {s : Source} {t w u : Text} {a b run : Span} {i : Nat}

/-- What the source spells from the start of the first token of a run to the end of the last one. -/
def spelling? (s : Source) (run : Span) : Option Text :=
  Text.slice? s.text (s.startOffset run.first) (s.stopOffset run.last)

/-- A run of tokens spells a text, and the first token of the run is not empty. -/
structure Spells (s : Source) (w : Text) (run : Span) : Prop where
  first_le_last : run.first ≤ run.last
  last_lt : run.last < s.size
  exists_first : ∃ a, s.tokens[run.first]? = some a ∧ a.text ≠ []
  spelling?_eq : s.spelling? run = some w

/-- A run that spells a text, the first one from a token on, and the shortest one from its own first
token. -/
structure FirstRun (s : Source) (w : Text) (i : Nat) (run : Span) : Prop where
  le_first : i ≤ run.first
  spells : s.Spells w run
  first_le : ∀ other, s.Spells w other → i ≤ other.first → run.first ≤ other.first
  last_le : ∀ other, s.Spells w other → other.first = run.first → run.last ≤ other.last

/-! ### What runs spell -/

section spelling

variable (h : ofText? t = .ok s)

include h

theorem startOffset_le_stopOffset (hle : a.first ≤ b.last) :
    s.startOffset a.first ≤ s.stopOffset b.last := by
  rw [← edgeOffset_two_mul, ← edgeOffset_two_mul_add_one]
  exact edgeOffset_mono h (by omega)

theorem stopOffset_mono {j : Nat} (hle : i ≤ j) : s.stopOffset i ≤ s.stopOffset j := by
  rw [← edgeOffset_two_mul_add_one, ← edgeOffset_two_mul_add_one]
  exact edgeOffset_mono h (by omega)

theorem stopOffset_le_startOffset {j : Nat} (hlt : i < j) : s.stopOffset i ≤ s.startOffset j := by
  rw [← edgeOffset_two_mul_add_one, ← edgeOffset_two_mul]
  exact edgeOffset_mono h (by omega)

theorem exists_spelling?_eq_some (hle : run.first ≤ run.last) : ∃ w, s.spelling? run = some w := by
  unfold spelling?
  apply Text.exists_slice?_eq_some (startOffset_le_stopOffset h hle)
  · rw [text_of_ofText? h, ← edgeOffset_two_mul]
    exact isBoundary_edgeOffset h _
  · rw [text_of_ofText? h, ← edgeOffset_two_mul_add_one]
    exact isBoundary_edgeOffset h _

/-- One token spells its own text. -/
theorem spelling?_self {a : Token} (ha : s.tokens[i]? = some a) : s.spelling? ⟨i, i⟩ = some a.text := by
  have hfaithful := (faithfulTo_of_ofText? h ha).2
  simp only [spelling?, startOffset, stopOffset, ha]
  rw [text_of_ofText? h]
  exact hfaithful.slice?_eq

/-- Of two runs that begin with one token the one that ends first spells a beginning of what the other one
spells. -/
theorem spelling?_isPrefix (hw : s.spelling? a = some w) (hu : s.spelling? b = some u)
    (hfirst : a.first = b.first) (hlast : a.last ≤ b.last) : w <+: u := by
  unfold spelling? at hw hu
  rw [hfirst] at hw
  exact Text.isPrefix_of_slice?_eq_some hw hu (stopOffset_mono h hlast)

/-- A run spells at least its first token. -/
theorem text_isPrefix_of_spelling? {c : Token} (hle : a.first ≤ a.last)
    (hc : s.tokens[a.first]? = some c) (hw : s.spelling? a = some w) : c.text <+: w :=
  spelling?_isPrefix h (spelling?_self h hc) hw rfl hle

/-- Of two runs that spell one text the one that begins later ends later. -/
theorem Spells.last_lt_last (ha : s.Spells w a) (hb : s.Spells w b) (hlt : a.first < b.first) :
    a.last < b.last := by
  obtain ⟨c, hc, hne⟩ := ha.exists_first
  have hsizea := Text.size_of_slice?_eq_some ha.spelling?_eq
  have hsizeb := Text.size_of_slice?_eq_some hb.spelling?_eq
  have hsizec : s.startOffset a.first + c.text.size = s.stopOffset a.first :=
    Text.size_of_slice?_eq_some (spelling?_self h hc)
  have hpos : 0 < c.text.size := Text.size_pos hne
  have hstart : s.stopOffset a.first ≤ s.startOffset b.first := stopOffset_le_startOffset h hlt
  by_contra hnot
  have hstop : s.stopOffset b.last ≤ s.stopOffset a.last := stopOffset_mono h (Nat.not_lt.1 hnot)
  omega

/-- The first run ends no later than any other run from the token on. -/
theorem FirstRun.last_le_last (ha : s.FirstRun w i a) (hb : s.Spells w b) (hle : i ≤ b.first) :
    a.last ≤ b.last := by
  rcases (ha.first_le b hb hle).eq_or_lt with heq | hlt
  · exact ha.last_le b hb heq.symm
  · exact (Spells.last_lt_last h ha.spells hb hlt).le

end spelling

end Source

/-! ### The search -/

namespace Marker

variable {m : Marker} {t w : Text} {first last i count : Nat} {run : Span}

section search

variable (h : Source.ofText? t = .ok m.source)

include h

/-- From a token on the search ends at the first token up to which the source spells the text. -/
theorem spellFrom_eq_some_iff (hle : first ≤ i) :
    m.spellFrom w (m.source.startOffset first) i count = some last ↔
      i ≤ last ∧ last < i + count ∧ m.source.spelling? ⟨first, last⟩ = some w ∧
        ∀ j, i ≤ j → j < last → m.source.spelling? ⟨first, j⟩ ≠ some w := by
  induction count generalizing i with
  | zero =>
    simp only [spellFrom, reduceCtorEq, false_iff]
    omega
  | succ count ih =>
    obtain ⟨part, hpart⟩ : ∃ part, m.source.spelling? ⟨first, i⟩ = some part :=
      Source.exists_spelling?_eq_some h hle
    unfold spellFrom
    rw [show Text.slice? _ _ _ = some part from hpart]
    dsimp only
    split_ifs with hlong hpartw
    · -- longer runs spell even more
      simp only [false_iff]
      rintro ⟨hi, -, hlast, -⟩
      have hprefix := Source.spelling?_isPrefix h hpart hlast rfl hi
      exact absurd hlong (Text.size_le_of_isPrefix hprefix).not_gt
    · subst hpartw
      rw [Option.some.injEq]
      constructor
      · rintro rfl
        exact ⟨le_rfl, by omega, hpart, by omega⟩
      · rintro ⟨hi, -, -, hleast⟩
        by_contra hne
        exact hleast i le_rfl (by omega) hpart
    · rw [ih (hle.trans (Nat.le_succ i))]
      have hne : m.source.spelling? ⟨first, i⟩ ≠ some w := by
        rw [hpart]
        exact fun heq => hpartw (Option.some.inj heq)
      constructor
      · rintro ⟨hi, hlt, hlast, hleast⟩
        refine ⟨by omega, by omega, hlast, fun j hj hjlast => ?_⟩
        rcases hj.eq_or_lt with rfl | hlt
        · exact hne
        · exact hleast j hlt hjlast
      · rintro ⟨hi, hlt, hlast, hleast⟩
        have hilast : i ≠ last := by
          rintro rfl
          exact hne hlast
        exact ⟨by omega, by omega, hlast, fun j hj => hleast j (by omega)⟩

/-- At a token the search finds the shortest run from this token on. -/
theorem spellAt?_eq_some_iff :
    m.spellAt? w i = some last ↔ m.source.Spells w ⟨i, last⟩ ∧
      ∀ j, m.source.Spells w ⟨i, j⟩ → last ≤ j := by
  unfold spellAt?
  rcases htoken : m.source.tokens[i]? with _ | a
  · simp only [reduceCtorEq, false_iff]
    rintro ⟨hspells, -⟩
    obtain ⟨a, ha, -⟩ := hspells.exists_first
    cases htoken.symm.trans ha
  have hi : i < m.size := (Array.getElem?_eq_some_iff.1 htoken).1
  have hself := Source.spelling?_self h htoken
  have hstart : a.startOffset = m.source.startOffset i := by rw [Source.startOffset, htoken]
  dsimp only
  split_ifs with hskip htext
  · -- a run from here on would begin with a beginning of the text that is not empty
    simp only [false_iff]
    rintro ⟨hspells, -⟩
    obtain ⟨b, hb, hne⟩ := hspells.exists_first
    obtain rfl := Option.some.inj (htoken.symm.trans hb)
    have hprefix := Source.text_isPrefix_of_spelling? h hspells.first_le_last htoken
      hspells.spelling?_eq
    rw [List.isPrefixOf_iff_prefix.2 hprefix] at hskip
    simp [hne] at hskip
  · subst htext
    have hspells : m.source.Spells a.text ⟨i, i⟩ :=
      ⟨le_rfl, hi, ⟨a, htoken, by simpa using hskip⟩, hself⟩
    rw [Option.some.injEq]
    constructor
    · rintro rfl
      exact ⟨hspells, fun j hj => hj.first_le_last⟩
    · rintro ⟨hlast, hleast⟩
      exact hlast.first_le_last.antisymm (hleast i hspells)
  · have hne : m.source.spelling? ⟨i, i⟩ ≠ some w := by
      rw [hself]
      exact fun heq => htext (Option.some.inj heq)
    have hfirst : a.text ≠ [] := by
      intro hnil
      simp [hnil] at hskip
    rw [hstart, spellFrom_eq_some_iff h (Nat.le_succ i)]
    constructor
    · rintro ⟨hlt, hlast, hspelling, hleast⟩
      have hsize : last < m.size := by omega
      refine ⟨⟨Nat.le_of_succ_le hlt, hsize, ⟨a, htoken, hfirst⟩, hspelling⟩, fun j hj => ?_⟩
      by_contra hnot
      rcases hj.first_le_last.eq_or_lt with heq | hlt
      · obtain rfl : i = j := heq
        exact hne hj.spelling?_eq
      · exact hleast j hlt (Nat.not_le.1 hnot) hj.spelling?_eq
    · rintro ⟨hspells, hleast⟩
      have hlt : i ≠ last := by
        rintro rfl
        exact hne hspells.spelling?_eq
      have hle : i ≤ last := hspells.first_le_last
      have hsize : last < m.size := hspells.last_lt
      refine ⟨by omega, by omega, hspells.spelling?_eq, fun j hj hjlast heq => ?_⟩
      have hj' : m.source.Spells w ⟨i, j⟩ :=
        ⟨Nat.le_of_succ_le hj, hjlast.trans hsize, hspells.exists_first, heq⟩
      exact absurd (hleast j hj') hjlast.not_ge

/-- The search starts a run at a token if and only if a run from this token on spells the text. -/
theorem spellAt?_isSome_iff :
    (m.spellAt? w i).isSome = true ↔ ∃ last, m.source.Spells w ⟨i, last⟩ := by
  classical
  rw [Option.isSome_iff_exists]
  constructor
  · rintro ⟨last, hlast⟩
    exact ⟨last, ((spellAt?_eq_some_iff h).1 hlast).1⟩
  · intro hex
    exact ⟨Nat.find hex, (spellAt?_eq_some_iff h).2 ⟨Nat.find_spec hex, fun j => Nat.find_min' hex⟩⟩

/-- **The search finds the first and shortest run.** -/
theorem findText?_eq_some_iff : m.findText? w i = some run ↔ m.source.FirstRun w i run := by
  unfold findText?
  rw [Option.bind_eq_some_iff]
  constructor
  · rintro ⟨j, hj, hrun⟩
    obtain ⟨last, hlast, rfl⟩ := Option.map_eq_some_iff.1 hrun
    obtain ⟨hij, -, -, hfirst⟩ := findUp_eq_some_iff.1 hj
    obtain ⟨hspells, hleast⟩ := (spellAt?_eq_some_iff h).1 hlast
    refine ⟨hij, hspells, fun other hother hle => ?_, fun other hother heq => ?_⟩
    · by_contra hlt
      have hnone := hfirst other.first hle (Nat.not_le.1 hlt)
      rw [(spellAt?_isSome_iff h).2 ⟨other.last, hother⟩] at hnone
      cases hnone
    · apply hleast
      rwa [← show other.first = j from heq]
  · intro hrun
    have hsize : run.first < m.size := hrun.spells.first_le_last.trans_lt hrun.spells.last_lt
    refine ⟨run.first, findUp_eq_some_iff.2 ⟨hrun.le_first, hsize, ?_, fun k hk hlt => ?_⟩, ?_⟩
    · exact (spellAt?_isSome_iff h).2 ⟨run.last, hrun.spells⟩
    · by_contra hsome
      obtain ⟨last, hlast⟩ := (spellAt?_isSome_iff h).1 (eq_true_of_ne_false hsome)
      exact absurd (hrun.first_le _ hlast hk) hlt.not_ge
    · have hlast : m.spellAt? w run.first = some run.last :=
        (spellAt?_eq_some_iff h).2 ⟨hrun.spells, fun j hj => hrun.last_le _ hj rfl⟩
      rw [hlast]
      rfl

theorem findText?_eq_none_iff :
    m.findText? w i = none ↔ ∀ run, i ≤ run.first → ¬ m.source.Spells w run := by
  constructor
  · intro hnone run hle hspells
    have hsome : (findUp (fun j => (m.spellAt? w j).isSome) i m.size).isSome = true := by
      by_contra hup
      rw [Option.not_isSome_iff_eq_none, findUp_eq_none_iff] at hup
      have hfalse := hup run.first hle (hspells.first_le_last.trans_lt hspells.last_lt)
      rw [(spellAt?_isSome_iff h).2 ⟨run.last, hspells⟩] at hfalse
      cases hfalse
    obtain ⟨j, hj⟩ := Option.isSome_iff_exists.1 hsome
    obtain ⟨last, hlast⟩ := Option.isSome_iff_exists.1 (findUp_eq_some_iff.1 hj).2.2.1
    rw [findText?, hj, Option.bind_some, hlast] at hnone
    cases hnone
  · intro hnot
    rw [Option.eq_none_iff_forall_ne_some]
    intro run hrun
    have hfirst := (findText?_eq_some_iff h).1 hrun
    exact hnot run hfirst.le_first hfirst.spells

end search

/-! ### Runs without brackets -/

/-- A run whose tokens have no partners is the least closed span around it. -/
theorem leastClosed_of_forall_partner? {floor : Nat} {children : List Span}
    (hrun : ∀ i, run.Holds i → m.partner? i = none) : m.LeastClosed floor children [run] run := by
  refine ⟨?_, fun i p hi _ hp => ?_, fun outer houter _ => houter run (List.mem_singleton_self run)⟩
  · simpa using Span.Covers.refl run
  · cases (hrun i hi).symm.trans hp

end Marker

/-! ### Leaves -/

/-- The text of a node whose tokens are a run is what the run spells. -/
theorem Annotated.text_of_spelling? {a : Annotated} {id : NodeId} {run : Span} {w : Text}
    (hrange : a.ranges.get? id = some (.ofTokens run.first run.last))
    (hw : a.source.spelling? run = some w) : a.text id = .ok w := by
  rw [text_eq_ok hrange, ownText, offsets_eq hrange, TokenRange.lowEdge_ofTokens,
    TokenRange.highEdge_ofTokens, Source.edgeOffset_two_mul, Source.edgeOffset_two_mul_add_one]
  rw [show Text.slice? _ _ _ = some w from hw]
  rfl

section leaves

variable {t : Text} {source : Source} {policy : PolicyTable} {g : NodeTable} {root : NodeId}
  {ranges : RangeTable}

/-- A leaf with a text and without a rule has the least closed span around the run that is found from the
cursor of its visit on. -/
theorem exists_run_of_mark (hmark : mark source policy g root = .ok ranges) {id : NodeId}
    (hid : id ∈ g.walk root) (hleaf : g.reachedFrom root id = []) {w : Text}
    (hliteral : g.literal? id = some (.text w)) (hrule : policy.rule? (g.kind id) = none) :
    ∃ v run span, (Marker.new source policy).Makes (g.visit root) v ∧ v.tree.id = id ∧
      (Marker.new source policy).findText? w v.before.cursor = some run ∧
      ranges.get? id = some (.ofTokens span.first span.last) ∧
      (Marker.new source policy).LeastClosed v.before.cursor [] [run] span := by
  obtain ⟨u, hu, rfl⟩ := NodeTable.exists_mem_subtrees hid
  obtain ⟨v, hv, rfl⟩ := exists_makes_of_mark hmark hu
  rw [← NodeTable.kind_of_mem_subtrees hu] at hrule
  have hnil : v.tree.children = [] := by
    rwa [← NodeTable.map_id_children hu, List.map_eq_nil_iff] at hleaf
  obtain ⟨r, hr, hrange⟩ := leastRange_of_mark hmark hv hrule
  have hspans : ranges.spansOf v.tree.children = [] := by rw [hnil]; rfl
  rw [NodeTable.literal?_of_mem_subtrees hu, hliteral, hspans] at hrange
  cases hrange with
  | children hne _ => exact absurd rfl hne
  | @literal literal found span _ hsome hfound hleast =>
    obtain rfl := Option.some.inj hsome
    exact ⟨v, found, span, hv, rfl, hfound, hr, hleast⟩
  | nothing _ hnone _ => cases hnone

/-- **Texts are located exactly.** In a source of a text a search for a text from a token on finds the first
run of tokens that spells it, and the shortest one from its first token, where this first token is not empty;
it finds none only if there is no such run. So in a marked graph a leaf with a text, whose kind has no rule,
is visited with a cursor from which a run is found, and if no token of the run is a bracket then the leaf has
the tokens of the run, and its text is the one that was looked for. -/
theorem texts_located (hsource : Source.ofText? t = .ok source) (policy : PolicyTable) :
    (∀ w i,
      (∀ run, (Marker.new source policy).findText? w i = some run ↔ source.FirstRun w i run) ∧
      ((Marker.new source policy).findText? w i = none ↔
        ∀ run, i ≤ run.first → ¬ source.Spells w run)) ∧
    ∀ g root ranges, mark source policy g root = .ok ranges →
      ∀ id ∈ g.walk root, g.reachedFrom root id = [] →
        ∀ w, g.literal? id = some (.text w) → policy.rule? (g.kind id) = none →
          ∃ v run, (Marker.new source policy).Makes (g.visit root) v ∧ v.tree.id = id ∧
            (Marker.new source policy).findText? w v.before.cursor = some run ∧
            ((∀ i a, run.Holds i → source.tokens[i]? = some a → a.isBracket = false) →
              ranges.get? id = some (.ofTokens run.first run.last) ∧
                (⟨source, ranges⟩ : Annotated).text id = .ok w) := by
  refine ⟨fun w i => ⟨fun run => ?_, ?_⟩, fun g root ranges hmark id hid hleaf w hliteral hrule => ?_⟩
  · exact Marker.findText?_eq_some_iff (m := Marker.new source policy) hsource
  · exact Marker.findText?_eq_none_iff (m := Marker.new source policy) hsource
  · obtain ⟨v, run, span, hv, hvid, hrun, hrange, hleast⟩ :=
      exists_run_of_mark hmark hid hleaf hliteral hrule
    refine ⟨v, run, hv, hvid, hrun, fun hbrackets => ?_⟩
    have hself : (Marker.new source policy).LeastClosed v.before.cursor [] [run] run :=
      Marker.leastClosed_of_forall_partner? fun i hi => Marker.partner?_eq_none fun a => hbrackets i a hi
    obtain rfl : span = run := hleast.unique hself
    have hspells := ((Marker.findText?_eq_some_iff (m := Marker.new source policy) hsource).1 hrun).spells
    exact ⟨hrange, Annotated.text_of_spelling? hrange hspells.spelling?_eq⟩

end leaves

/-- The same path twice, once with blanks in it. -/
def pathText : Text := "é . b é.b\n".toList

/-- The source of `pathText`. -/
def pathSource : Source :=
  let line := pathText
  Source.build pathText
    [⟨.name, ['é'], ⟨1, 0⟩, ⟨1, 1⟩, line⟩, ⟨.op, ['.'], ⟨1, 2⟩, ⟨1, 3⟩, line⟩,
      ⟨.name, ['b'], ⟨1, 4⟩, ⟨1, 5⟩, line⟩, ⟨.name, ['é'], ⟨1, 6⟩, ⟨1, 7⟩, line⟩,
      ⟨.op, ['.'], ⟨1, 7⟩, ⟨1, 8⟩, line⟩, ⟨.name, ['b'], ⟨1, 8⟩, ⟨1, 9⟩, line⟩,
      ⟨.newline, ['\n'], ⟨1, 9⟩, ⟨2, 0⟩, line⟩, ⟨.endMarker, [], ⟨2, 0⟩, ⟨2, 0⟩, []⟩]

/-- A statement with a path. -/
def pathGraph : NodeTable where
  nodes := [
    (1, ⟨"Expr", some [2], [], none, none⟩),
    (2, ⟨"Path", some [], [], none, some (.text "é.b".toList)⟩)]

theorem texts_located_path :
    Source.ofText? pathText = .ok pathSource ∧
      mark pathSource .empty pathGraph 1 = .ok ⟨[(1, .ofTokens 3 5), (2, .ofTokens 3 5)]⟩ ∧
      pathSource.FirstRun "é.b".toList 0 ⟨3, 5⟩ ∧
      (⟨pathSource, ⟨[(1, .ofTokens 3 5), (2, .ofTokens 3 5)]⟩⟩ : Annotated).text 2 =
        .ok "é.b".toList := by
  have hsource : Source.ofText? pathText = .ok pathSource := by decide +kernel
  have hmark : mark pathSource .empty pathGraph 1 =
      .ok ⟨[(1, .ofTokens 3 5), (2, .ofTokens 3 5)]⟩ := by decide +kernel
  obtain ⟨hsearch, hleaves⟩ := texts_located hsource .empty
  have hfirst := ((hsearch "é.b".toList 0).1 ⟨3, 5⟩).1 (by decide +kernel)
  have hwalk : 2 ∈ pathGraph.walk 1 := by
    rw [← NodeTable.preorder_unfolding]
    decide
  have hleaf : pathGraph.reachedFrom 1 2 = [] := NodeTable.reachedFrom_eq_nil rfl
  obtain ⟨v, run, -, -, -, htext⟩ := hleaves _ _ _ hmark 2 hwalk hleaf _ rfl rfl
  have hbrackets : ∀ a ∈ pathSource.tokens, a.isBracket = false := by decide +kernel
  exact ⟨hsource, hmark, hfirst,
    (htext fun i a _ ha => hbrackets a (Array.mem_of_getElem? ha)).2⟩

end SourceSpans
