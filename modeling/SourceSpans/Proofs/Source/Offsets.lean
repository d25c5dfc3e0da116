import Mathlib.Data.List.SplitBy
import SourceSpans.Proofs.Mark.Edges
import SourceSpans.Proofs.Token.Order

/-!
# The byte offsets of the tokens of a text

The tokens of a source that was read from a text are in order in the text, byte offset by byte offset
(`inOrder_of_ofText?`):

* **Places** (`standsIn_of_tokenize`): every token that is read spells what stands in the text between
  its two positions, which are places of the text, where byte offsets are in reading order.
* **Joining** (`Coarsens`): joining the pieces of identifiers puts one token in the place of several
  that adjoin each other and spells what they do. This keeps the order of the tokens and that they
  stand in the text.
-/

namespace SourceSpans

open RawToken (Before)

/-- A token that stands in a text: after a beginning of the text it spells what comes next, stops
after it, and has the line that it starts on. -/
structure RawToken.StandsIn (a : RawToken) (t : Text) : Prop where
  spelled : ∃ u v, u ++ a.text ++ v = t ∧ Position.start.advance u = a.start
  stop_eq : a.stop = a.start.advance a.text
  line_eq : a.line = t.lineText a.start.line

namespace RawToken.StandsIn

variable {a : RawToken} {t : Text}

theorem start (h : a.StandsIn t) : t.IsPlace a.start := by
  obtain ⟨u, v, ht, hu⟩ := h.spelled
  exact ⟨u, ⟨a.text ++ v, by rw [← List.append_assoc]; exact ht⟩, hu⟩

theorem stop (h : a.StandsIn t) : t.IsPlace a.stop := by
  obtain ⟨u, v, ht, hu⟩ := h.spelled
  rw [h.stop_eq]
  exact .advance ht hu

theorem start_le_stop (h : a.StandsIn t) : a.start.le a.stop = true := by
  rw [h.stop_eq]
  exact a.start.le_advance a.text

end RawToken.StandsIn

/-! ### The places of tokens -/

namespace Layout

variable {t : Text} {s s' : Layout} {tokens : List RawToken}

theorem standsIn_tokenAt {u text v : Text} (h : u ++ text ++ v = t) {place : Position}
    (hu : Position.start.advance u = place) (kind : TokenKind) :
    (tokenAt t.lines kind place text).StandsIn t :=
  ⟨⟨u, v, h, hu⟩, rfl, rfl⟩

theorem standsIn_standing {u v : Text} (h : u ++ v = t) {place : Position}
    (hu : Position.start.advance u = place) (kind : TokenKind) :
    (tokenAt t.lines kind place []).StandsIn t :=
  standsIn_tokenAt (v := v) (by rw [List.append_nil]; exact h) hu kind

/-- The white space of a line stands between the start of the line and the place. -/
theorem standsIn_indentToken {u v : Text} (h : u ++ v = t) {place : Position}
    (hu : Position.start.advance u = place) : (indentToken t.lines place).StandsIn t := by
  subst hu h
  obtain ⟨before, hbefore, hstart⟩ := Text.exists_append_take_lineText u v
  refine ⟨⟨before, v, ?_, hstart⟩, ?_, rfl⟩
  · exact congrArg (· ++ v) hbefore
  · -- the place is the position after `before` and the white space
    calc Position.start.advance u
        = Position.start.advance (before ++ (indentToken (u ++ v).lines _).text) :=
          congrArg Position.start.advance hbefore.symm
      _ = (Position.start.advance before).advance (indentToken (u ++ v).lines _).text :=
          Position.advance_append _ _ _
      _ = _ := by rw [hstart]; rfl

theorem standsIn_of_code {kind : TokenKind} {u text v : Text} (ht : u ++ text ++ v = t)
    (hu : Position.start.advance u = s.place) (h : code t.lines kind text s = .ok (tokens, s')) :
    (∀ a ∈ tokens, a.StandsIn t) ∧ Position.start.advance (u ++ text) = s'.place := by
  obtain ⟨layout, rfl, hplace, -, hlayout⟩ := code_cases h
  have hs : u ++ (text ++ v) = t := by rw [← List.append_assoc]; exact ht
  refine ⟨fun a ha => ?_, by rw [Position.advance_append, hu, hplace]⟩
  rw [List.mem_append, List.mem_singleton] at ha
  rcases ha with ha | rfl
  · rcases hlayout with ⟨rfl, -⟩ | ⟨n, rfl⟩
    · rw [List.mem_singleton.1 ha]
      exact standsIn_indentToken hs hu
    · rw [(List.mem_replicate.1 ha).2]
      exact standsIn_standing hs hu .dedent
  · exact standsIn_tokenAt ht hu kind

theorem standsIn_of_broken {u text v : Text} (ht : u ++ text ++ v = t)
    (hu : Position.start.advance u = s.place) (h : broken t.lines text s = .ok (tokens, s')) :
    (∀ a ∈ tokens, a.StandsIn t) ∧ Position.start.advance (u ++ text) = s'.place := by
  induction text generalizing u s tokens with
  | nil =>
    obtain ⟨rfl, rfl⟩ := Prod.mk.inj (Except.ok.inj h)
    exact ⟨nofun, by rwa [List.append_nil]⟩
  | cons c rest ih =>
    rw [broken_cons] at h
    obtain ⟨⟨first, s₁⟩, hcode, h⟩ := bind_eq_ok h
    obtain ⟨⟨others, s₂⟩, hrest, h⟩ := bind_eq_ok h
    obtain ⟨rfl, rfl⟩ := Prod.mk.inj (Except.ok.inj h)
    have hsplit : u ++ c :: rest = u ++ [c] ++ rest := by simp
    have ht₁ : u ++ [c] ++ (rest ++ v) = t := by rw [← ht, hsplit, List.append_assoc _ rest]
    have ht₂ : u ++ [c] ++ rest ++ v = t := by rw [← ht, hsplit]
    obtain ⟨hfirst, hs₁⟩ := standsIn_of_code ht₁ hu hcode
    obtain ⟨hothers, hs₂⟩ := ih ht₂ hs₁ hrest
    refine ⟨fun a ha => ?_, by rw [hsplit]; exact hs₂⟩
    rcases List.mem_append.1 ha with ha | ha
    · exact hfirst a ha
    · exact hothers a ha

theorem standsIn_of_read {l : Lexeme} {u v : Text} (ht : u ++ l.text ++ v = t)
    (hu : Position.start.advance u = s.place) (h : read t.lines l s = .ok (tokens, s')) :
    (∀ a ∈ tokens, a.StandsIn t) ∧ Position.start.advance (u ++ l.text) = s'.place := by
  have hsingle : ∀ kind : TokenKind, ∀ a ∈ [tokenAt t.lines kind s.place l.text], a.StandsIn t := by
    intro kind a ha
    rw [List.mem_singleton.1 ha]
    exact standsIn_tokenAt ht hu kind
  have hplace : Position.start.advance (u ++ l.text) = s.place.advance l.text := by
    rw [Position.advance_append, hu]
  obtain ⟨cls, text⟩ := l
  cases cls with
  | gap =>
    obtain ⟨rfl, rfl⟩ := Prod.mk.inj (Except.ok.inj h)
    exact ⟨nofun, hplace⟩
  | comment =>
    obtain ⟨rfl, rfl⟩ := Prod.mk.inj (Except.ok.inj h)
    exact ⟨hsingle .comment, hplace⟩
  | lineBreak =>
    obtain ⟨rfl, rfl⟩ := Prod.mk.inj (Except.ok.inj h)
    exact ⟨hsingle _, hplace⟩
  | broken => exact standsIn_of_broken ht hu h
  | name => exact standsIn_of_code ht hu h
  | number => exact standsIn_of_code ht hu h
  | string => exact standsIn_of_code ht hu h
  | operator => exact standsIn_of_code ht hu h

theorem standsIn_of_readAll {ls : List Lexeme} {u : Text}
    (ht : u ++ (ls.map Lexeme.text).flatten = t) (hu : Position.start.advance u = s.place)
    (h : readAll t.lines ls s = .ok tokens) : ∀ a ∈ tokens, a.StandsIn t := by
  induction ls generalizing u s tokens with
  | nil =>
    obtain rfl := Except.ok.inj h
    intro a ha
    obtain ⟨kind, rfl⟩ : ∃ kind, a = tokenAt t.lines kind s.place [] := by
      rw [finish, List.mem_append, List.mem_append, List.mem_singleton] at ha
      rcases ha with (ha | ha) | rfl
      · split_ifs at ha
        · exact ⟨.newline, List.mem_singleton.1 ha⟩
        · exact absurd ha List.not_mem_nil
      · exact ⟨.dedent, (List.mem_replicate.1 ha).2⟩
      · exact ⟨.endMarker, rfl⟩
    exact standsIn_standing ht hu kind
  | cons l ls ih =>
    rw [readAll_cons] at h
    obtain ⟨⟨first, s₁⟩, hread, h⟩ := bind_eq_ok h
    obtain ⟨others, hrest, h⟩ := bind_eq_ok h
    obtain rfl := Except.ok.inj h
    rw [List.map_cons, List.flatten_cons, ← List.append_assoc] at ht
    obtain ⟨hfirst, hs₁⟩ := standsIn_of_read ht hu hread
    have hothers := ih ht hs₁ hrest
    intro a ha
    rcases List.mem_append.1 ha with ha | ha
    · exact hfirst a ha
    · exact hothers a ha

/-- The end of the text is a token. -/
theorem ne_nil_of_readAll {ls : List Lexeme} (h : readAll t.lines ls s = .ok tokens) :
    tokens ≠ [] := by
  induction ls generalizing s tokens with
  | nil =>
    obtain rfl := Except.ok.inj h
    simp [finish]
  | cons l ls ih =>
    rw [readAll_cons] at h
    obtain ⟨⟨first, s₁⟩, -, h⟩ := bind_eq_ok h
    obtain ⟨others, hrest, h⟩ := bind_eq_ok h
    obtain rfl := Except.ok.inj h
    exact List.append_ne_nil_of_right_ne_nil first (ih hrest)

end Layout

/-- The tokens that are read from a text stand in it. -/
theorem standsIn_of_tokenize {t : Text} {raw : List RawToken} (h : tokenize t = .ok raw) :
    ∀ a ∈ raw, a.StandsIn t :=
  Layout.standsIn_of_readAll (u := []) (flatten_lexemes t) rfl h

/-! ### Joined tokens -/

/-- The second token starts where the first one stops. -/
def RawToken.Adjoins (a b : RawToken) : Prop := a.stop = b.start

/-- Tokens that adjoin each other spell what stands in the text from the start of the first to the stop
of the last. -/
theorem exists_spelled_of_adjoins {t : Text} {first : RawToken} {others : List RawToken}
    (hadjoin : (first :: others).IsChain RawToken.Adjoins)
    (hstands : ∀ a ∈ first :: others, a.StandsIn t) :
    (∃ u v, u ++ ((first :: others).map RawToken.text).flatten ++ v = t ∧
      Position.start.advance u = first.start) ∧
    ((first :: others).getLast (List.cons_ne_nil _ _)).stop =
      first.start.advance ((first :: others).map RawToken.text).flatten := by
  have hfirst := hstands first List.mem_cons_self
  obtain ⟨u, v, ht, hu⟩ := hfirst.spelled
  induction others generalizing first u v with
  | nil => exact ⟨⟨u, v, by simpa using ht, hu⟩, by simpa using hfirst.stop_eq⟩
  | cons d others ih =>
    rw [List.isChain_cons_cons] at hadjoin
    have hd := hstands d (by simp)
    obtain ⟨u', v', ht', hu'⟩ := hd.spelled
    obtain ⟨⟨u₁, v₁, hrest, hu₁⟩, hstop⟩ :=
      ih hadjoin.2 (fun a ha => hstands a (List.mem_cons_of_mem _ ha)) hd u' v' ht' hu'
    -- `first` stops where `d` starts, and there is only one beginning of the text up to there
    have hplace : Position.start.advance u₁ = Position.start.advance (u ++ first.text) := by
      rw [hu₁, ← hadjoin.1, hfirst.stop_eq, Position.advance_append, hu]
    obtain rfl : u₁ = u ++ first.text :=
      Text.eq_of_advance_eq ⟨_, by rw [← List.append_assoc]; exact hrest⟩ ⟨v, ht⟩ hplace
    refine ⟨⟨u, v₁, ?_, hu⟩, ?_⟩
    · rw [← hrest]
      simp
    · rw [List.getLast_cons_cons, hstop, ← hadjoin.1, hfirst.stop_eq, ← Position.advance_append]
      rfl

/-- One list of tokens comes from another one by putting a token in the place of each of several
stretches that make up the other list. The tokens of a stretch adjoin each other, and the token in their
place spells what they do. -/
inductive Coarsens : (fine coarse : List RawToken) → Prop
  | nil : Coarsens [] []
  | cons {first : RawToken} {others fine coarse : List RawToken} {a : RawToken}
      (hadjoin : (first :: others).IsChain RawToken.Adjoins)
      (htext : a.text = ((first :: others).map RawToken.text).flatten)
      (hstart : a.start = first.start)
      (hstop : a.stop = ((first :: others).getLast (List.cons_ne_nil _ _)).stop)
      (hline : a.line = first.line)
      (h : Coarsens fine coarse) : Coarsens (first :: others ++ fine) (a :: coarse)

namespace Coarsens

variable {fine coarse fine' coarse' : List RawToken} {t : Text}

theorem append (h : Coarsens fine coarse) (h' : Coarsens fine' coarse') :
    Coarsens (fine ++ fine') (coarse ++ coarse') := by
  induction h with
  | nil => exact h'
  | cons hadjoin htext hstart hstop hline _ ih =>
    rw [List.append_assoc, List.cons_append]
    exact .cons hadjoin htext hstart hstop hline ih

theorem head?_start (h : Coarsens fine coarse) :
    coarse.head?.map RawToken.start = fine.head?.map RawToken.start := by
  cases h with
  | nil => rfl
  | cons _ _ hstart _ _ _ => simp [hstart]

/-- Tokens in the places of stretches of tokens in order are in order. -/
theorem isChain (h : Coarsens fine coarse) (hchain : fine.IsChain Before) :
    coarse.IsChain Before := by
  induction h with
  | nil => exact hchain
  | @cons first others fine coarse a _ _ _ hstop _ h ih =>
    obtain ⟨-, hfine, hnext⟩ := List.isChain_append.1 hchain
    rw [List.isChain_cons]
    refine ⟨fun b hb => ?_, ih hfine⟩
    -- the next token starts where the next stretch does, and `a` stops where its own stretch does
    have hstart := h.head?_start
    rw [Option.mem_def.1 hb] at hstart
    obtain ⟨d, hd, hdb⟩ := Option.map_eq_some_iff.1 hstart.symm
    have hbefore := hnext _ (List.getLast?_eq_some_getLast (List.cons_ne_nil first others)) d hd
    rwa [Before, hdb, ← hstop] at hbefore

/-- Tokens in the places of stretches that stand in a text stand in it. -/
theorem standsIn (h : Coarsens fine coarse) (hstands : ∀ a ∈ fine, a.StandsIn t) :
    ∀ a ∈ coarse, a.StandsIn t := by
  induction h with
  | nil => exact hstands
  | @cons first others fine coarse a hadjoin htext hstart hstop hline _ ih =>
    have hstretch : ∀ b ∈ first :: others, b.StandsIn t := fun b hb =>
      hstands b (List.mem_append_left _ hb)
    obtain ⟨hspelled, hlast⟩ := exists_spelled_of_adjoins hadjoin hstretch
    intro b hb
    rcases List.mem_cons.1 hb with rfl | hb
    · refine ⟨?_, ?_, ?_⟩
      · rw [htext, hstart]
        exact hspelled
      · rw [hstop, hlast, htext, hstart]
      · rw [hline, hstart]
        exact (hstretch first List.mem_cons_self).line_eq
    · exact ih (fun c hc => hstands c (List.mem_append_right _ hc)) b hb

end Coarsens

theorem joinFrom_eq_drop (skip : Nat) (tokens : List RawToken) :
    joinFrom skip tokens = joinFrom 0 (tokens.drop skip) := by
  induction tokens generalizing skip with
  | nil => cases skip <;> rfl
  | cons t tokens ih =>
    cases skip with
    | zero => rfl
    | succ skip => rw [joinFrom, ih, List.drop_succ_cons]

theorem isChain_adjoins_stretchFrom (sofar : Text) (last : RawToken) (rest : List RawToken) :
    (last :: rest.take (stretchFrom sofar last rest)).IsChain RawToken.Adjoins := by
  induction rest generalizing sofar last with
  | nil => exact .singleton last
  | cons t rest ih =>
    rw [stretchFrom]
    split_ifs with h
    · rw [Bool.and_eq_true, RawToken.meets, Bool.and_eq_true, beq_iff_eq] at h
      rw [List.take_succ_cons, List.isChain_cons_cons]
      exact ⟨h.1.1, ih _ t⟩
    · exact .singleton last

/-- The tokens of a stretch adjoin each other. -/
theorem isChain_adjoins_stretch (t : RawToken) (rest : List RawToken) :
    (t :: rest.take (stretchLength (t :: rest) - 1)).IsChain RawToken.Adjoins := by
  rw [stretchLength]
  split_ifs
  · exact isChain_adjoins_stretchFrom t.text t rest
  · exact .singleton t

/-- Joining puts one name in the place of each stretch that it joins. -/
theorem coarsens_join (tokens : List RawToken) : Coarsens tokens (join tokens) := by
  unfold join
  induction hlen : tokens.length using Nat.strongRecOn generalizing tokens with
  | _ n ih =>
    cases tokens with
    | nil => exact .nil
    | cons t rest =>
      rw [List.length_cons] at hlen
      have hadjoin := isChain_adjoins_stretch t rest
      simp only [joinFrom]
      split_ifs
      · generalize hothers : rest.take (stretchLength (t :: rest) - 1) = others at hadjoin
        have hdrop : others ++ rest.drop others.length = rest :=
          List.prefix_iff_eq_append.1 (hothers ▸ List.take_prefix _ _)
        rw [joinFrom_eq_drop]
        have hrest := ih (rest.drop others.length).length
          (by rw [List.length_drop]; omega) (rest.drop others.length) rfl
        have hcons : Coarsens (t :: others ++ rest.drop others.length)
            (merged t others :: joinFrom 0 (rest.drop others.length)) :=
          .cons hadjoin rfl rfl rfl rfl hrest
        rwa [List.cons_append, hdrop] at hcons
      · have hrest := ih rest.length (by omega) rest rfl
        have hcons : Coarsens (t :: [] ++ rest) (t :: joinFrom 0 rest) :=
          .cons (.singleton t) (by simp) rfl rfl rfl hrest
        exact hcons

theorem coarsens_of_normalize {raw joined : List RawToken} (h : normalize raw = .ok joined) :
    raw.IsChain Before ∧ Coarsens raw joined := by
  by_cases hchain : raw.IsChain Before
  · rw [normalize_of_isChain hchain] at h
    obtain rfl := Except.ok.inj h
    refine ⟨hchain, ?_⟩
    have hall : ∀ stretches : List (List RawToken),
        Coarsens stretches.flatten (stretches.map join).flatten := by
      intro stretches
      induction stretches with
      | nil => exact .nil
      | cons stretch stretches ih => exact (coarsens_join stretch).append ih
    have hraw := hall (raw.splitBy RawToken.continues)
    rwa [List.flatten_splitBy] at hraw
  · obtain ⟨index, start, stop, heq⟩ := normalize_of_not_isChain hchain
    rw [heq] at h
    cases h

/-! ### Sources -/

namespace Source

variable {t : Text} {tokens : List RawToken}

theorem size_build (t : Text) (tokens : List RawToken) : (build t tokens).size = tokens.length := by
  simp [size, build]

theorem startOffset_build {i : Nat} (h : i < tokens.length) :
    (build t tokens).startOffset i = Text.offset t tokens[i].start := by
  simp [startOffset, build, h, Text.offset]

theorem stopOffset_build {i : Nat} (h : i < tokens.length) :
    (build t tokens).stopOffset i = Text.offset t tokens[i].stop := by
  simp [stopOffset, build, h, Text.offset]

/-- The tokens that a source is given are its tokens once they are normalized. -/
theorem exists_of_ofTokens? {raw : List RawToken} {source : Source}
    (h : ofTokens? t raw = .ok source) :
    ∃ joined, normalize raw = .ok joined ∧ source = build t joined := by
  unfold ofTokens? at h
  rcases hjoined : normalize raw with e | joined <;> rw [hjoined] at h
  · cases h
  · exact ⟨joined, rfl, (Except.ok.inj h).symm⟩

/-- A source that was read from a text has tokens in order that stand in the text. -/
theorem exists_of_ofText? {source : Source} (h : ofText? t = .ok source) :
    ∃ joined, source = build t joined ∧ joined.IsChain Before ∧ ∀ a ∈ joined, a.StandsIn t := by
  obtain ⟨raw, hraw, h⟩ := bind_eq_ok h
  obtain ⟨joined, hjoined, rfl⟩ := exists_of_ofTokens? h
  obtain ⟨hchain, hcoarsens⟩ := coarsens_of_normalize hjoined
  exact ⟨joined, rfl, hcoarsens.isChain hchain, hcoarsens.standsIn (standsIn_of_tokenize hraw)⟩

/-- A source that was read from a text has a token. -/
theorem size_pos_of_ofText? {source : Source} (h : ofText? t = .ok source) : 0 < source.size := by
  obtain ⟨raw, hraw, h⟩ := bind_eq_ok h
  obtain ⟨joined, hjoined, rfl⟩ := exists_of_ofTokens? h
  rw [size_build, List.length_pos_iff]
  rintro rfl
  -- the first token that was read starts where a joined one does
  have hhead := (coarsens_of_normalize hjoined).2.head?_start
  rw [List.head?_nil, Option.map_none, eq_comm, Option.map_eq_none_iff, List.head?_eq_none_iff] at hhead
  exact Layout.ne_nil_of_readAll hraw hhead

/-- **The byte offsets of the tokens of a text are in order.** -/
theorem inOrder_of_ofText? {source : Source} (h : ofText? t = .ok source) : source.InOrder := by
  obtain ⟨joined, rfl, hchain, hstands⟩ := exists_of_ofText? h
  intro i hi
  rw [size_build] at hi ⊢
  rw [startOffset_build hi, stopOffset_build hi]
  have hi' := hstands joined[i] (List.getElem_mem hi)
  refine ⟨hi'.start.offset_le hi'.stop hi'.start_le_stop, fun hnext => ?_⟩
  rw [startOffset_build hnext]
  have hnext' := hstands joined[i + 1] (List.getElem_mem hnext)
  exact hi'.stop.offset_le hnext'.start (hchain.getElem i hnext)

end Source

end SourceSpans
