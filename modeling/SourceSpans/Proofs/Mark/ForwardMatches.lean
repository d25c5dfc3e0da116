import SourceSpans.Proofs.Mark.Bounds
import SourceSpans.Proofs.Mark.Tokens
import SourceSpans.Proofs.Policy.Accepted

/-!
# Matches of forward patterns

The sequences of `head`, `intro` and `empty` are matched from left to right, and `$*` passes over tokens
until its next pattern matches. A match of a sequence of an accepted table never leaves its logical line,
and what it passes over never leaves the brackets that were open where it began.

* **One pattern more** (`matchesFrom_of_forwardFrom`): each pattern adds one place, and whatever lies
  between two places either is no coding token or ends no stretch of passed tokens (`MatchesFrom`).
* **From the first to the last token** (`isForwardMatch_of_forwardAt?`): the check of the table gives a
  last pattern to the last place, and the reading of the table gives each place a token with syntax of
  its own, which ends no line.
* **Without `$*`** (`forwardFrom_isSome_iff`): the patterns meet the coding tokens one by one
  (`following`).
-/

namespace SourceSpans

/-- What is related element by element has related last elements. -/
theorem rel_of_getLast? {α β : Type} {R : α → β → Prop} {l : List α} {l' : List β} {a : α} {b : β}
    (h : List.Forall₂ R l l') (ha : l.getLast? = some a) (hb : l'.getLast? = some b) : R a b := by
  obtain ⟨front, rfl⟩ := List.getLast?_eq_some_iff.1 ha
  obtain ⟨front', rfl⟩ := List.getLast?_eq_some_iff.1 hb
  have hreverse := List.forall₂_reverse_iff.2 h
  rw [List.reverse_concat, List.reverse_concat] at hreverse
  exact (List.forall₂_cons.1 hreverse).1

theorem exists_rel_of_mem {α β : Type} {R : α → β → Prop} {l : List α} {l' : List β} {b : β}
    (h : List.Forall₂ R l l') (hb : b ∈ l') : ∃ a ∈ l, R a b := by
  induction h with
  | nil => cases hb
  | @cons a b' l l' hab _ ih =>
    rcases List.mem_cons.1 hb with rfl | hb
    · exact ⟨a, List.mem_cons_self, hab⟩
    · obtain ⟨c, hc, hcb⟩ := ih hb
      exact ⟨c, List.mem_cons_of_mem a hc, hcb⟩

namespace Marker

variable {m : Marker} {start : Nat} {p : Pattern} {ps : PatternSequence}

/-! ### One pattern more -/

/-- The patterns but for the skips match at places after a token, the last of which is the last token of
the match. What lies between the places ends no stretch that began at `start`, unless it is no coding
token. -/
structure MatchesFrom (m : Marker) (start i : Nat) (ps : PatternSequence) (last : Nat)
    (places : List Nat) : Prop where
  admits : List.Forall₂ (fun p j => m.admits p j = true) (ps.filter (· ≠ .skip)) places
  ordered : (i :: places).Pairwise (· < ·)
  getLast?_eq : (i :: places).getLast? = some last
  passed : ∀ j, i < j → j ≤ last → j ∈ places ∨ m.isCoding j = false ∨ m.endsSkip start j = false

namespace MatchesFrom

variable {i j last : Nat} {places : List Nat}

theorem nil (start i : Nat) : m.MatchesFrom start i [] i [] where
  admits := .nil
  ordered := List.pairwise_singleton _ _
  getLast?_eq := rfl
  passed _ hij hj := absurd hij hj.not_gt

theorem skip (h : m.MatchesFrom start i ps last places) :
    m.MatchesFrom start i (.skip :: ps) last places := by
  refine ⟨?_, h.ordered, h.getLast?_eq, h.passed⟩
  rw [List.filter_cons_of_neg (by simp)]
  exact h.admits

/-- One more pattern in front, which matches at the first place. -/
theorem cons (h : m.MatchesFrom start j ps last places) (hp : p ≠ .skip) (hij : i < j)
    (hadmits : m.admits p j = true)
    (hpassed : ∀ k, i < k → k < j → m.isCoding k = false ∨ m.endsSkip start k = false) :
    m.MatchesFrom start i (p :: ps) last (j :: places) where
  admits := by
    rw [List.filter_cons_of_pos (by simpa using hp)]
    exact .cons hadmits h.admits
  ordered := by
    refine List.pairwise_cons.2 ⟨?_, h.ordered⟩
    intro k hk
    rcases List.mem_cons.1 hk with rfl | hk
    · exact hij
    · exact hij.trans (List.rel_of_pairwise_cons h.ordered hk)
  getLast?_eq := by
    rw [List.getLast?_cons_cons]
    exact h.getLast?_eq
  passed k hik hk := by
    rcases lt_trichotomy k j with hkj | rfl | hjk
    · exact Or.inr (hpassed k hik hkj)
    · exact Or.inl List.mem_cons_self
    · exact (h.passed k hjk hk).imp_left (List.mem_cons_of_mem j)

end MatchesFrom

/-- The token to which a stretch leads is the first coding token that its pattern admits, and no coding
token before it ends the stretch. -/
theorem passed_of_skipTo?_eq_some {i j : Nat} (h : m.skipTo? p start i = some j) :
    i < j ∧ m.admits p j = true ∧
      ∀ k, i < k → k < j → m.isCoding k = false ∨ m.endsSkip start k = false := by
  obtain ⟨hfind, hadmits⟩ := Option.filter_eq_some_iff.1 h
  obtain ⟨hij, -, -, hbefore⟩ := findUp_eq_some_iff.1 hfind
  refine ⟨hij, hadmits, ?_⟩
  intro k hik hkj
  have hk := hbefore k hik hkj
  rw [Bool.and_eq_false_iff, Bool.or_eq_false_iff] at hk
  exact hk.imp_right And.right

theorem passed_of_codingAfter?_eq_some {i j : Nat} (h : m.codingAfter? i = some j) :
    i < j ∧ ∀ k, i < k → k < j → m.isCoding k = false := by
  obtain ⟨hij, -, -, hbefore⟩ := findUp_eq_some_iff.1 h
  exact ⟨hij, fun k hik hkj => hbefore k hik hkj⟩

theorem matchesFrom_of_forwardFrom {ps : PatternSequence} :
    ∀ {skipping : Bool} {i last : Nat}, m.forwardFrom start skipping i ps = some last →
      ∃ places, m.MatchesFrom start i ps last places := by
  induction ps with
  | nil =>
    intro skipping i last h
    obtain rfl := Option.some.inj h
    exact ⟨[], .nil start i⟩
  | cons p ps ih =>
    intro skipping i last h
    rw [forwardFrom] at h
    split_ifs at h with hskip
    · obtain ⟨places, hplaces⟩ := ih h
      exact ⟨places, hskip ▸ hplaces.skip⟩
    · obtain ⟨j, hj, h⟩ := Option.bind_eq_some_iff.1 h
      obtain ⟨hij, hadmits, hpassed⟩ := passed_of_skipTo?_eq_some hj
      obtain ⟨places, hplaces⟩ := ih h
      exact ⟨j :: places, hplaces.cons hskip hij hadmits hpassed⟩
    · obtain ⟨j, hj, h⟩ := Option.bind_eq_some_iff.1 h
      obtain ⟨hj, hadmits⟩ := Option.filter_eq_some_iff.1 hj
      obtain ⟨hij, hpassed⟩ := passed_of_codingAfter?_eq_some hj
      obtain ⟨places, hplaces⟩ := ih h
      exact ⟨j :: places, hplaces.cons hskip hij hadmits fun k hik hkj => Or.inl (hpassed k hik hkj)⟩

/-- A match begins with its first pattern, which stands for one token. -/
theorem exists_of_forwardAt?_eq_some {i last : Nat} (h : m.forwardAt? ps i = some last) :
    ∃ p rest places, ps = p :: rest ∧ p ≠ .skip ∧ m.admits p i = true ∧
      m.MatchesFrom i i rest last places := by
  rcases ps with _ | ⟨p, rest⟩
  · cases h
  · rw [forwardAt?] at h
    split_ifs at h with hp
    obtain ⟨places, hplaces⟩ := matchesFrom_of_forwardFrom h
    refine ⟨p, rest, places, rfl, ?_, hp, hplaces⟩
    rintro rfl
    obtain ⟨a, -, ha⟩ := Source.holdsAt_eq_true_iff.1 hp
    cases ha

/-! ### From the first to the last token -/

/-- A match of a sequence of patterns from token `i` to token `last`, where `places` are the tokens that
patterns other than skips match. -/
structure IsForwardMatch (source : Source) (ps : PatternSequence) (i last : Nat) (places : List Nat) :
    Prop where
  first_le_last : i ≤ last
  last_lt : last < source.size
  admits_first : ∃ p, ps.head? = some p ∧ source.holdsAt p.admits i = true
  admits_last : ∃ p, ps.getLast? = some p ∧ source.holdsAt p.admits last = true
  /-- The patterns match in their order. -/
  admits_places : List.Forall₂ (fun p j => source.holdsAt p.admits j = true) (ps.filter (· ≠ .skip)) places
  ordered : places.Pairwise (· < ·)
  head?_eq : places.head? = some i
  getLast?_eq : places.getLast? = some last
  /-- The match stays in its logical line. -/
  in_line : ∀ j t, i ≤ j → j ≤ last → source.tokens[j]? = some t →
    t.kind ≠ .newline ∧ t.kind ≠ .endMarker
  /-- What is passed over closes nothing that was opened before the match. -/
  in_brackets : ∀ j t, i ≤ j → j ≤ last → j ∉ places → source.tokens[j]? = some t → t.isCloser = true →
    ∃ o, i ≤ o ∧ o < j ∧ ArePartners (bracketPartners source.tokens) o j

section

variable {source : Source} {policy : PolicyTable} {i j last : Nat} {t : Token}

theorem kind_of_endsSkip_eq_false (h : (new source policy).endsSkip start j = false)
    (ht : source.tokens[j]? = some t) : t.kind ≠ .newline ∧ t.kind ≠ .endMarker := by
  unfold endsSkip at h
  obtain ⟨hline, hend⟩ := Bool.or_eq_false_iff.1 (Bool.or_eq_false_iff.1 h).1
  have hne : ∀ kind, (new source policy).hasKind kind j = false → t.kind ≠ kind := by
    intro kind hkind
    simpa [hasKind, new, Source.holdsAt, ht] using hkind
  exact ⟨hne _ hline, hne _ hend⟩

/-- A closing bracket that ends no stretch is paired with one from the start of the stretch on. -/
theorem exists_opener_of_endsSkip_eq_false (h : (new source policy).endsSkip start j = false)
    (ht : source.tokens[j]? = some t) (hcloser : t.isCloser = true) :
    ∃ o, start ≤ o ∧ o < j ∧ ArePartners (bracketPartners source.tokens) o j := by
  have hcloses : (new source policy).closesBefore start j = false := by
    unfold endsSkip at h
    exact (Bool.or_eq_false_iff.1 h).2
  have hholds : source.holdsAt (·.isCloser) j = true := Source.holdsAt_eq_true_iff.2 ⟨t, ht, hcloser⟩
  have hall : ((new source policy).partner? j).all (· < start) = false := by
    unfold closesBefore at hcloses
    exact (Bool.and_eq_false_iff.1 hcloses).resolve_left (by simp [new, hholds])
  rcases hpartner : (new source policy).partner? j with _ | o
  · rw [hpartner] at hall
    cases hall
  · have hstart : start ≤ o := by simpa [hpartner] using hall
    have hmatching := isMatching_bracketPartners source.tokens
    have hpartners := partner?_eq_some_iff.1 hpartner
    obtain ⟨hne, hpartners'⟩ := hmatching.isMutual j o hpartners
    rcases hne.lt_or_gt with hjo | hoj
    · -- a token that comes first in its pair is an opening bracket
      obtain ⟨-, a, c, ha, -, hpair⟩ := hmatching.brackets j o hpartners hjo
      rw [Array.getElem?_toList, ht] at ha
      obtain rfl := Option.some.inj ha
      have hopener := hpair.isOpener
      rw [Token.isOpener_eq_false_of_isCloser hcloser] at hopener
      cases hopener
    · exact ⟨o, hstart, hoj, hpartners'⟩

/-- A match of a sequence that does not end with a skip, and whose patterns all name tokens. -/
theorem isForwardMatch_of_forwardAt? (hlast : ps.getLast? ≠ some .skip)
    (hwritten : ∀ p ∈ ps, p.IsWritten) (h : (new source policy).forwardAt? ps i = some last) :
    ∃ places, IsForwardMatch source ps i last places := by
  obtain ⟨hle, hsize⟩ := forwardAt?_bounds h
  obtain ⟨p, rest, places, rfl, hp, hadmits, hrest⟩ := exists_of_forwardAt?_eq_some h
  have hall : List.Forall₂ (fun p j => source.holdsAt p.admits j = true)
      ((p :: rest).filter (· ≠ .skip)) (i :: places) := by
    rw [List.filter_cons_of_pos (by simpa using hp)]
    exact .cons hadmits hrest.admits
  -- the last pattern is no skip, so it is the one at the last place
  obtain ⟨q, hq⟩ : ∃ q, (p :: rest).getLast? = some q := ⟨_, List.getLast?_cons⟩
  have hfilter : ((p :: rest).filter (· ≠ .skip)).getLast? = some q := by
    obtain ⟨front, hfront⟩ := List.getLast?_eq_some_iff.1 hq
    have hne : q ≠ .skip := fun heq => hlast (heq ▸ hq)
    rw [hfront, List.filter_append, List.filter_cons_of_pos (by simpa using hne), List.filter_nil,
      List.getLast?_concat]
  -- a place has a token with syntax of its own
  have hplace : ∀ j ∈ i :: places, ∀ t, source.tokens[j]? = some t → t.kind.IsNamable := by
    intro j hj t ht
    obtain ⟨q, hq, hadmits⟩ := exists_rel_of_mem hall hj
    obtain ⟨u, hu, hadmits⟩ := Source.holdsAt_eq_true_iff.1 hadmits
    obtain rfl := Option.some.inj (ht.symm.trans hu)
    exact Pattern.kind_of_admits (hwritten q (List.mem_of_mem_filter hq)) hadmits
  have hpassed : ∀ j, i ≤ j → j ≤ last → j ∈ i :: places ∨
      (new source policy).isCoding j = false ∨ (new source policy).endsSkip i j = false := by
    intro j hij hj
    rcases hij.eq_or_lt with rfl | hij
    · exact Or.inl List.mem_cons_self
    · exact (hrest.passed j hij hj).imp_left (List.mem_cons_of_mem i)
  have hend := rel_of_getLast? hall hfilter hrest.getLast?_eq
  refine ⟨i :: places, hle, hsize, ⟨p, rfl, hadmits⟩, ⟨q, hq, hend⟩, hall, hrest.ordered, rfl,
    hrest.getLast?_eq, ?_, ?_⟩
  · intro j t hij hj ht
    rcases hpassed j hij hj with hmem | hcoding | hends
    · rcases hplace j hmem t ht with hkind | hkind | hkind | hkind <;> simp [hkind]
    · have hkind := isCoding_eq_false_iff.1 hcoding t ht
      refine ⟨?_, ?_⟩
      all_goals
        intro heq
        rw [heq] at hkind
        cases hkind
    · exact kind_of_endsSkip_eq_false hends ht
  · intro j t hij hj hmem ht hcloser
    rcases (hpassed j hij hj).resolve_left hmem with hcoding | hends
    · have hop : t.kind = .op := by
        apply Token.kind_of_isBracket
        rw [Token.isBracket, hcloser, Bool.or_true]
      have hkind := isCoding_eq_false_iff.1 hcoding t ht
      rw [hop] at hkind
      cases hkind
    · exact exists_opener_of_endsSkip_eq_false hends ht hcloser

end

/-! ### Without skips -/

/-- The coding tokens after a token. -/
def following (m : Marker) (i : Nat) : List Nat :=
  (List.range' (i + 1) (m.size - (i + 1))).filter m.isCoding

theorem following_of_codingAfter?_eq_none {i : Nat} (h : m.codingAfter? i = none) :
    m.following i = [] := by
  unfold following
  rw [List.filter_eq_nil_iff]
  intro j hj
  obtain ⟨hij, hlt⟩ := List.mem_range'_1.1 hj
  rw [findUp_eq_none_iff.1 h j hij (by omega)]
  exact Bool.false_ne_true

theorem following_of_codingAfter?_eq_some {i j : Nat} (h : m.codingAfter? i = some j) :
    m.following i = j :: m.following j := by
  obtain ⟨hij, hlt, hcoding, hbefore⟩ := findUp_eq_some_iff.1 h
  have hcount : m.size - (i + 1) = (j - (i + 1)) + (m.size - (j + 1) + 1) := by omega
  have hnone : (List.range' (i + 1) (j - (i + 1))).filter m.isCoding = [] := by
    rw [List.filter_eq_nil_iff]
    intro k hk
    obtain ⟨hik, hkj⟩ := List.mem_range'_1.1 hk
    rw [hbefore k hik (by omega)]
    exact Bool.false_ne_true
  unfold following
  rw [hcount, ← List.range'_append_1, List.filter_append, hnone, List.nil_append, List.range'_succ]
  rw [show i + 1 + (j - (i + 1)) = j by omega, List.filter_cons_of_pos hcoding]

theorem forwardFrom_isSome_iff {ps : PatternSequence} (hps : .skip ∉ ps) :
    ∀ {i : Nat}, (m.forwardFrom start false i ps).isSome = true ↔
      List.Forall₂ (fun p j => m.admits p j = true) ps ((m.following i).take ps.length) := by
  induction ps with
  | nil =>
    intro i
    simp [forwardFrom]
  | cons p ps ih =>
    intro i
    have hp : p ≠ .skip := fun heq => hps (heq ▸ List.mem_cons_self)
    have hrest : .skip ∉ ps := fun hmem => hps (List.mem_cons_of_mem p hmem)
    rw [forwardFrom, if_neg hp, if_neg Bool.false_ne_true]
    rcases hj : m.codingAfter? i with _ | j
    · simp [following_of_codingAfter?_eq_none hj]
    · rw [following_of_codingAfter?_eq_some hj, List.length_cons, List.take_succ_cons,
        List.forall₂_cons, ← ih hrest]
      by_cases hadmits : m.admits p j = true
      · simp [Option.filter, hadmits]
      · simp [Option.filter, hadmits]

/-! ### Sequences of accepted tables -/

/-- **Forward patterns stay inside one logical line and one bracket.** Take any sequence of `head`,
`intro` or `empty` in a table that is read from a document and accepted. Where it matches, it matches
from the token it is tried at to a token of its last pattern, in order, in one logical line, and without
passing over the closing bracket of anything opened before. Without skips it matches exactly where its
patterns fit the token and the coding tokens after it one by one. -/
theorem forward_matches_stay_inside {origin : PolicyOrigin} {document kind : String} {t : PolicyTable}
    {r : Rule} {ps : PatternSequence} (hparse : PolicyTable.parse origin document = .ok t)
    (hr : (kind, r) ∈ t.kinds) (hps : ps ∈ r.head ∨ ps ∈ r.intro ∨ ps ∈ r.empty)
    (source : Source) (policy : PolicyTable) (i : Nat) :
    (∀ last, (new source policy).forwardAt? ps i = some last →
        ∃ places, IsForwardMatch source ps i last places) ∧
      (.skip ∉ ps → (((new source policy).forwardAt? ps i).isSome = true ↔
        List.Forall₂ (fun p j => source.holdsAt p.admits j = true) ps
          ((i :: (new source policy).following i).take ps.length))) := by
  obtain ⟨field, hfield⟩ : ∃ field, ps ∈ r.alternatives field := by
    rcases hps with hps | hps | hps
    · exact ⟨.head, hps⟩
    · exact ⟨.intro, hps⟩
    · exact ⟨.empty, hps⟩
  obtain ⟨hplaced, hwritten⟩ := PolicyTable.wellPlaced_of_parse hparse hr hfield
  refine ⟨fun last h => isForwardMatch_of_forwardAt? hplaced.not_last hwritten h, ?_⟩
  intro hskip
  rcases ps with _ | ⟨p, rest⟩
  · exact absurd rfl hplaced.ne_nil
  · rw [forwardAt?, List.length_cons, List.take_succ_cons, List.forall₂_cons]
    have hrest : ((new source policy).forwardFrom i false i rest).isSome = true ↔ _ :=
      forwardFrom_isSome_iff fun hmem => hskip (List.mem_cons_of_mem p hmem)
    by_cases hadmits : (new source policy).admits p i = true
    · rw [if_pos hadmits, hrest]
      exact (and_iff_right hadmits).symm
    · rw [if_neg hadmits]
      exact iff_of_false (by simp) fun h => hadmits h.1

/-- A document with one sequence, which passes over tokens. -/
def importDocument : String := "kinds.Import.head = [[\"from\", \"$*\", \"import\"]]"

/-- The table of `importDocument`. -/
def importTable : PolicyTable :=
  ⟨"", none, [("Import", { head := [[.token "from", .skip, .token "import"]] })]⟩

theorem parse_importDocument : PolicyTable.parse .inline importDocument = .ok importTable := by
  have hread : (Toml.parse? importDocument).map (fun entries =>
      (PolicyTable.ofEntries entries).toOption) = some (some importTable) := by decide +kernel
  have hvalidate : importTable.validate = .ok importTable := by
    simp [importTable, PolicyTable.validate, PolicyTable.issues, PolicyTable.sortedKinds]
    decide
  obtain ⟨entries, hentries, htable⟩ := Option.map_eq_some_iff.1 hread
  refine PolicyTable.parse_eq_ok_iff.2 ⟨entries, hentries, ?_, hvalidate⟩
  rcases h : PolicyTable.ofEntries entries with e | table
  · rw [h] at htable
    cases htable
  · rw [h] at htable
    rw [Option.some.inj htable]

/-- An import with brackets between its words. -/
def importSource : Source :=
  let line := "from(.)import x\n".toList
  Source.build line
    [⟨.name, "from".toList, ⟨1, 0⟩, ⟨1, 4⟩, line⟩, ⟨.op, ['('], ⟨1, 4⟩, ⟨1, 5⟩, line⟩,
      ⟨.op, ['.'], ⟨1, 5⟩, ⟨1, 6⟩, line⟩, ⟨.op, [')'], ⟨1, 6⟩, ⟨1, 7⟩, line⟩,
      ⟨.name, "import".toList, ⟨1, 7⟩, ⟨1, 13⟩, line⟩, ⟨.name, ['x'], ⟨1, 14⟩, ⟨1, 15⟩, line⟩,
      ⟨.newline, ['\n'], ⟨1, 15⟩, ⟨2, 0⟩, line⟩, ⟨.endMarker, [], ⟨2, 0⟩, ⟨2, 0⟩, []⟩]

/-- The match is made of the words `from` and `import`, tokens 0 and 4. -/
theorem forward_matches_stay_inside_import :
    PolicyTable.parse .inline importDocument = .ok importTable ∧
      (new importSource .empty).forwardAt? [.token "from", .skip, .token "import"] 0 = some 4 ∧
      IsForwardMatch importSource [.token "from", .skip, .token "import"] 0 4 [0, 4] := by
  have hmatch : (new importSource .empty).forwardAt? [.token "from", .skip, .token "import"] 0 =
      some 4 := by decide +kernel
  obtain ⟨hmatches, -⟩ := forward_matches_stay_inside (r := importTable.kinds[0].2) parse_importDocument
    (List.mem_singleton_self _) (Or.inl (List.mem_singleton_self _)) importSource .empty 0
  obtain ⟨places, hplaces⟩ := hmatches 4 hmatch
  obtain ⟨first, last, rfl⟩ := List.length_eq_two.1 hplaces.admits_places.length_eq.symm
  obtain rfl : first = 0 := Option.some.inj hplaces.head?_eq
  obtain rfl : last = 4 := Option.some.inj hplaces.getLast?_eq
  exact ⟨parse_importDocument, hmatch, hplaces⟩

end Marker

end SourceSpans
