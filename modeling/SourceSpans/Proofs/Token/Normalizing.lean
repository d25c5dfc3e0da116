import SourceSpans.Proofs.Token.Rejoining

/-!
# What is joined

Normalization is described without the search that it makes (`normalize_merges_split_identifiers`). Tokens that
are out of order are refused at the first of them. Other tokens fall into blocks, each a single token that is
kept or a longest stretch of pieces that spell an identifier (`IsLongestStretch`), and the blocks tell all that
comes of them (`Normalizes.unique`).

* **Longest stretches** (`isLongestStretch_stretch`): the search goes on as long as what it has is an
  identifier. It finds the longest stretch because a beginning of an identifier is an identifier.
* **Runs** (`Joins.normalizes_append`): a stretch does not go past the end of its run, since there a token does
  not go on with the one before it. So what is longest in the run is longest among all tokens that follow.
-/

namespace SourceSpans

open RawToken (spelled Before)

/-! ### Longest stretches -/

/-- Tokens that may be pieces of an identifier, each meeting the next one on its line, spell one together. -/
structure IsStretch (ts : List RawToken) : Prop where
  isPiece : ∀ t ∈ ts, t.isPiece = true
  meets : ts.IsChain fun a b => a.meets b = true
  isIdentifier : Text.isIdentifier (spelled ts) = true

/-- The longest stretch at the start of tokens, or no token if there is no stretch. -/
structure IsLongestStretch (tokens part : List RawToken) : Prop where
  isPrefix : part <+: tokens
  isStretch : part ≠ [] → IsStretch part
  length_le : ∀ other, other <+: tokens → IsStretch other → other.length ≤ part.length

variable {sofar : Text} {t last : RawToken}
  {others rest tail part fine coarse joined raw tokens : List RawToken}

theorem IsStretch.ne_nil (h : IsStretch tokens) : tokens ≠ [] := by
  rintro rfl
  cases h.isIdentifier

theorem IsLongestStretch.unique {part' : List RawToken} (h : IsLongestStretch tokens part)
    (h' : IsLongestStretch tokens part') : part = part' := by
  have hle : ∀ {a b : List RawToken}, IsLongestStretch tokens a → IsLongestStretch tokens b →
      a.length ≤ b.length := by
    intro a b ha hb
    by_cases hnil : a = []
    · simp [hnil]
    · exact hb.length_le a ha.isPrefix (ha.isStretch hnil)
  have hlength := (hle h h').antisymm (hle h' h)
  rw [List.prefix_iff_eq_take.1 h.isPrefix, List.prefix_iff_eq_take.1 h'.isPrefix, hlength]

/-- At a token that is no piece of an identifier there is no stretch. -/
theorem isLongestStretch_nil (ht : t.isPiece = false) (rest : List RawToken) :
    IsLongestStretch (t :: rest) [] := by
  refine ⟨List.nil_prefix, fun hne => absurd rfl hne, fun other hbegins hother => ?_⟩
  cases other with
  | nil => exact Nat.le_refl 0
  | cons a other =>
    obtain ⟨rfl, -⟩ := List.cons_prefix_cons.1 hbegins
    rw [hother.isPiece a List.mem_cons_self] at ht
    cases ht

/-- What is counted goes on with the identifier. -/
theorem isIdentifier_take_stretchFrom (hid : Text.isIdentifier sofar = true) (last : RawToken)
    (rest : List RawToken) :
    Text.isIdentifier (sofar ++ spelled (rest.take (stretchFrom sofar last rest))) = true := by
  induction rest generalizing sofar last with
  | nil => simpa using hid
  | cons t rest ih =>
    cases hgoesOn : last.meets t && Text.isIdentifier (sofar ++ t.text) with
    | false =>
      rw [stretchFrom_cons_eq_zero hgoesOn]
      simpa using hid
    | true =>
      rw [Bool.and_eq_true] at hgoesOn
      rw [stretchFrom_cons_of_continues hgoesOn.1 hgoesOn.2, List.take_succ_cons, RawToken.spelled_cons,
        ← List.append_assoc]
      exact ih hgoesOn.2 t

/-- Tokens that go on with an identifier are counted, because with all of them each of them does. -/
theorem length_le_stretchFrom (hsofar : sofar ≠ [])
    (hmeets : (last :: others).IsChain fun a b => a.meets b = true)
    (hid : Text.isIdentifier (sofar ++ spelled others) = true) (hbegins : others <+: rest) :
    others.length ≤ stretchFrom sofar last rest := by
  induction others generalizing sofar last rest with
  | nil => exact Nat.zero_le _
  | cons d others ih =>
    obtain ⟨more, rfl⟩ := hbegins
    rw [List.isChain_cons_cons] at hmeets
    rw [RawToken.spelled_cons, ← List.append_assoc] at hid
    have hne : sofar ++ d.text ≠ [] := fun hnil => hsofar (List.append_eq_nil_iff.1 hnil).1
    rw [List.cons_append, stretchFrom_cons_of_continues hmeets.1 (Text.isIdentifier_of_append hne hid)]
    exact Nat.succ_le_succ (ih hne hmeets.2 hid (List.prefix_append others more))

/-- Tokens that go on with one another are pieces if the first one is. -/
theorem isPiece_of_isChain (ht : t.isPiece = true)
    (hchain : (t :: rest).IsChain fun a b => a.continues b = true) :
    ∀ a ∈ t :: rest, a.isPiece = true := by
  induction rest generalizing t with
  | nil => simpa using ht
  | cons d rest ih =>
    rw [List.isChain_cons_cons] at hchain
    have hd := (RawToken.isPiece_and_meets_of_continues hchain.1).2.1
    rw [List.forall_mem_cons]
    exact ⟨ht, ih hd hchain.2⟩

/-- A stretch at the start of a run stays in the run. -/
theorem IsStretch.isPrefix_run (h : IsStretch part) (hpart : part <+: t :: rest ++ tail)
    (hend : ∀ b ∈ tail.head?, ((t :: rest).getLast (List.cons_ne_nil _ _)).continues b = false) :
    part <+: t :: rest := by
  rcases List.prefix_or_prefix_of_prefix hpart (List.prefix_append (t :: rest) tail) with hle | hle
  · exact hle
  obtain ⟨more, rfl⟩ := hle
  cases more with
  | nil => simp
  | cons b more =>
    -- the last token of the run would go on with the first one after it
    exfalso
    have hmore := (List.prefix_append_right_inj (t :: rest)).1 hpart
    obtain ⟨tail, rfl⟩ : ∃ tail', tail = b :: tail' := by
      obtain ⟨tail', rfl⟩ := hmore
      exact ⟨_, rfl⟩
    obtain ⟨-, -, hmeets⟩ := List.isChain_append.1 h.meets
    have hlast := List.getLast_mem (List.cons_ne_nil t rest)
    have hcontinues := hend b rfl
    rw [RawToken.continues, h.isPiece _ (List.mem_append_left _ hlast),
      h.isPiece b (List.mem_append_right _ List.mem_cons_self),
      hmeets _ (List.getLast?_eq_some_getLast (List.cons_ne_nil t rest)) b rfl] at hcontinues
    cases hcontinues

/-- **The stretch that is taken at a piece is the longest one.** -/
theorem isLongestStretch_stretch (ht : t.isPiece = true) (htext : t.text ≠ [])
    (hchain : (t :: rest).IsChain fun a b => a.continues b = true)
    (hend : ∀ b ∈ tail.head?, ((t :: rest).getLast (List.cons_ne_nil _ _)).continues b = false) :
    IsLongestStretch (t :: rest ++ tail) (stretch (t :: rest)) := by
  have htake : stretch (t :: rest) <+: t :: rest := List.take_prefix _ _
  refine ⟨htake.trans (List.prefix_append _ _), fun hne => ?_, fun other hbegins hother => ?_⟩
  · have hmeets : (t :: rest).IsChain fun a b => a.meets b = true :=
      hchain.imp fun a b hab => (RawToken.isPiece_and_meets_of_continues hab).2.2
    refine ⟨fun a ha => isPiece_of_isChain ht hchain a (htake.subset ha), hmeets.prefix htake, ?_⟩
    rw [stretch_cons] at hne ⊢
    split_ifs at hne ⊢ with hid
    · exact isIdentifier_take_stretchFrom hid t rest
    · exact absurd rfl hne
  · have hrun := hother.isPrefix_run hbegins hend
    cases other with
    | nil => exact Nat.zero_le _
    | cons a other =>
      obtain ⟨rfl, hrest⟩ := List.cons_prefix_cons.1 hrun
      have hspelled : Text.isIdentifier (a.text ++ spelled other) = true := hother.isIdentifier
      have hcount := length_le_stretchFrom htext hother.meets hspelled hrest
      rw [stretch_cons, if_pos (Text.isIdentifier_of_append htext hspelled), List.length_cons,
        List.length_cons, List.length_take_of_le (stretchFrom_le _ _ _)]
      exact Nat.succ_le_succ hcount

/-! ### Blocks -/

/-- What comes of tokens. They are cut into blocks: a token is kept if the longest stretch from it holds no error
token, and a longest stretch with an error token becomes one name. -/
inductive Normalizes : (fine coarse : List RawToken) → Prop
  | nil : Normalizes [] []
  | keep {t : RawToken} {rest joined part : List RawToken} (hlongest : IsLongestStretch (t :: rest) part)
      (herror : hasError part = false) (h : Normalizes rest joined) :
      Normalizes (t :: rest) (t :: joined)
  | merge {t : RawToken} {others rest joined : List RawToken}
      (hlongest : IsLongestStretch (t :: others ++ rest) (t :: others))
      (herror : hasError (t :: others) = true) (h : Normalizes rest joined) :
      Normalizes (t :: others ++ rest) (merged t others :: joined)

/-- The tokens determine what comes of them. -/
theorem Normalizes.unique (h : Normalizes fine coarse) (h' : Normalizes fine joined) : coarse = joined := by
  induction h generalizing joined with
  | nil =>
    generalize hfine : ([] : List RawToken) = fine at h'
    cases h' with
    | nil => rfl
    | keep _ _ _ => cases hfine
    | merge _ _ _ => cases hfine
  | @keep t rest coarse part hlongest herror h ih =>
    generalize hfine : t :: rest = fine at h'
    cases h' with
    | nil => cases hfine
    | keep _ _ h' =>
      obtain ⟨rfl, rfl⟩ := List.cons.inj hfine
      rw [ih h']
    | merge hlongest' herror' _ =>
      rw [← hfine] at hlongest'
      rw [hlongest.unique hlongest', herror'] at herror
      cases herror
  | @merge t others rest coarse hlongest herror h ih =>
    generalize hfine : t :: others ++ rest = fine at h'
    cases h' with
    | nil => cases hfine
    | keep hlongest' herror' _ =>
      rw [← hfine] at hlongest'
      rw [hlongest.unique hlongest', herror'] at herror
      cases herror
    | merge hlongest' _ h' =>
      rw [← hfine] at hlongest'
      obtain ⟨rfl, rfl⟩ := List.cons.inj (hlongest.unique hlongest')
      obtain rfl := List.append_cancel_left hfine
      rw [ih h']

/-- What comes of a run by joining comes of it whatever tokens follow that do not go on with it. -/
theorem Joins.normalizes_append (h : Joins fine coarse)
    (htexts : ∀ a ∈ fine, a.isPiece = true → a.text ≠ [])
    (hchain : fine.IsChain fun a b => a.continues b = true)
    (hend : ∀ a ∈ fine.getLast?, ∀ b ∈ tail.head?, a.continues b = false)
    (htail : Normalizes tail joined) : Normalizes (fine ++ tail) (coarse ++ joined) := by
  induction h with
  | nil => exact htail
  | @keep t rest coarse hstretch h ih =>
    have hlast : ∀ b ∈ tail.head?, ((t :: rest).getLast (List.cons_ne_nil _ _)).continues b = false :=
      hend _ (List.getLast?_eq_some_getLast (List.cons_ne_nil t rest))
    have hrest : Normalizes (rest ++ tail) (coarse ++ joined) :=
      ih (fun a ha => htexts a (List.mem_cons_of_mem t ha)) hchain.tail fun a ha =>
        have ha' : a ∈ ([t] ++ rest).getLast? := List.mem_getLast?_append_of_mem_getLast? ha
        hend a ha'
    rcases ht : t.isPiece with _ | _
    · exact .keep (isLongestStretch_nil ht (rest ++ tail)) rfl hrest
    · exact .keep (isLongestStretch_stretch ht (htexts t List.mem_cons_self ht) hchain hlast) hstretch hrest
  | @merge t others rest coarse hid hlength herror h ih =>
    obtain ⟨hfirst, hchain', -⟩ := List.isChain_append.1 hchain
    have ht := isPiece_of_hasError hfirst herror
    have hlast : ∀ b ∈ tail.head?,
        ((t :: (others ++ rest)).getLast (List.cons_ne_nil _ _)).continues b = false :=
      hend _ (List.getLast?_eq_some_getLast (List.cons_ne_nil t (others ++ rest)))
    have hrest : Normalizes (rest ++ tail) (coarse ++ joined) :=
      ih (fun a ha => htexts a (List.mem_append_right _ ha)) hchain' fun a ha =>
        hend a (List.mem_getLast?_append_of_mem_getLast? ha)
    have hlongest : IsLongestStretch (t :: (others ++ rest) ++ tail) (stretch (t :: (others ++ rest))) :=
      isLongestStretch_stretch ht (htexts t List.mem_cons_self ht) hchain hlast
    rw [stretch_cons, if_pos hid, hlength, List.take_left, List.cons_append, List.append_assoc] at hlongest
    rw [List.append_assoc]
    exact .merge hlongest herror hrest

/-- What comes of runs, each joined on its own, comes of all their tokens. -/
theorem normalizes_flatten {runs : List (List RawToken)}
    (htexts : ∀ run ∈ runs, ∀ a ∈ run, a.isPiece = true → a.text ≠ [])
    (hruns : ∀ run ∈ runs, run ≠ [] ∧ run.IsChain fun a b => a.continues b = true)
    (hends : runs.IsChain fun run next =>
      ∃ hne hne', (run.getLast hne).continues (next.head hne') = false) :
    Normalizes runs.flatten (runs.map join).flatten := by
  induction runs with
  | nil => exact .nil
  | cons run runs ih =>
    rw [List.forall_mem_cons] at htexts hruns
    rw [List.isChain_cons] at hends
    rw [List.map_cons, List.flatten_cons, List.flatten_cons]
    refine (joins_join run).normalizes_append htexts.1 hruns.1.2 ?_ (ih htexts.2 hruns.2 hends.2)
    intro a ha b hb
    cases runs with
    | nil => cases hb
    | cons next runs =>
      obtain ⟨hne, hne', hend⟩ := hends.1 next rfl
      rw [List.getLast?_eq_some_getLast hne] at ha
      rw [List.flatten_cons, List.head?_append_of_ne_nil _ hne', List.head?_eq_some_head hne'] at hb
      obtain rfl := Option.some.inj ha
      obtain rfl := Option.some.inj hb
      exact hend

/-- Tokens in order are normalized block by block. -/
theorem normalizes_of_isChain (htexts : ∀ a ∈ raw, a.isPiece = true → a.text ≠ [])
    (horder : raw.IsChain Before) : ∃ joined, normalize raw = .ok joined ∧ Normalizes raw joined := by
  refine ⟨_, normalize_of_isChain horder, ?_⟩
  have hnormalizes : Normalizes (raw.splitBy RawToken.continues).flatten
      ((raw.splitBy RawToken.continues).map join).flatten := by
    apply normalizes_flatten
    · intro run hrun a ha
      apply htexts a
      rw [← List.flatten_splitBy RawToken.continues raw]
      exact List.mem_flatten_of_mem hrun ha
    · exact fun run hrun => ⟨List.ne_nil_of_mem_splitBy hrun, List.isChain_of_mem_splitBy hrun⟩
    · exact List.isChain_getLast_head_splitBy RawToken.continues raw
  rwa [List.flatten_splitBy] at hnormalizes

/-! ### Disorder -/

/-- The error names the first token that starts before the token before it stops. -/
theorem exists_of_disorder?_eq_some {index : Nat} {e : TokenizeError}
    (h : disorder? index t.stop rest = some e) :
    ∃ front a b back, t :: rest = front ++ a :: b :: back ∧ (front ++ [a]).IsChain Before ∧
      b.start.lt a.stop = true ∧ e = .outOfOrder (index + front.length) b.start a.stop := by
  induction rest generalizing index t with
  | nil => cases h
  | cons d rest ih =>
    rw [disorder?] at h
    split_ifs at h with hlt
    · exact ⟨[], t, d, rest, rfl, .singleton t, hlt, (Option.some.inj h).symm⟩
    · obtain ⟨front, a, b, back, hsplit, hchain, hba, rfl⟩ := ih h
      refine ⟨t :: front, a, b, back, by rw [hsplit]; rfl, ?_, hba, ?_⟩
      · rw [List.cons_append, List.isChain_cons]
        refine ⟨fun c hc => ?_, hchain⟩
        obtain rfl : d = c := by
          cases front with
          | nil => exact (List.cons.inj hsplit).1.trans (Option.some.inj hc)
          | cons c' front => exact (List.cons.inj hsplit).1.trans (Option.some.inj hc)
        simp [Before, Position.le, hlt]
      · rw [List.length_cons, Nat.add_assoc, Nat.add_comm 1]

/-- Tokens that are not in order are refused at the first of them that is not. -/
theorem exists_first_disorder (h : ¬ raw.IsChain Before) :
    ∃ front a b back, raw = front ++ a :: b :: back ∧ (front ++ [a]).IsChain Before ∧
      b.start.lt a.stop = true ∧
      normalize raw = .error (.outOfOrder (front.length + 1) b.start a.stop) := by
  cases raw with
  | nil => exact absurd .nil h
  | cons t rest =>
    cases hdisorder : disorder? 1 t.stop rest with
    | none => exact absurd (disorder?_eq_none_iff.1 hdisorder) h
    | some e =>
      obtain ⟨front, a, b, back, hsplit, hchain, hba, rfl⟩ := exists_of_disorder?_eq_some hdisorder
      refine ⟨front, a, b, back, hsplit, hchain, hba, ?_⟩
      rw [normalize, hdisorder, Nat.add_comm]

/-- **Normalization merges exactly the split identifiers.** Let no piece of an identifier among the tokens be
empty. If a token starts before the token before it stops, the tokens are refused, with the index of the first
such token. Otherwise the tokens are cut into blocks, one after the other: a block is a single token, from which
the longest stretch holds no error token, and it is kept; or it is the longest stretch from its first token, and
holds an error token, and it becomes one name. This determines what comes of them. -/
theorem normalize_merges_split_identifiers (htexts : ∀ a ∈ raw, a.isPiece = true → a.text ≠ []) :
    (¬ raw.IsChain Before → ∃ front a b back, raw = front ++ a :: b :: back ∧
      (front ++ [a]).IsChain Before ∧ b.start.lt a.stop = true ∧
      normalize raw = .error (.outOfOrder (front.length + 1) b.start a.stop)) ∧
    (raw.IsChain Before → ∃ joined, normalize raw = .ok joined ∧
      ∀ coarse, Normalizes raw coarse ↔ coarse = joined) := by
  refine ⟨exists_first_disorder, fun horder => ?_⟩
  obtain ⟨joined, hjoined, hnormalizes⟩ := normalizes_of_isChain htexts horder
  refine ⟨joined, hjoined, fun coarse => ⟨fun hcoarse => hcoarse.unique hnormalizes, ?_⟩⟩
  rintro rfl
  exact hnormalizes

/-- The pieces of `piecesText` in their order, and from the last one to the first. From the last one on, the
third token begins before the second one ends. -/
theorem normalize_merges_split_identifiers_piecesText :
    normalize piecesTokens = .ok joinedTokens ∧ Normalizes piecesTokens joinedTokens ∧
      ¬ piecesTokens.reverse.IsChain Before ∧ (piecesTokens.reverse.take 2).IsChain Before ∧
      normalize piecesTokens.reverse = .error (.outOfOrder 2 ⟨1, 8⟩ ⟨1, 9⟩) := by
  have hjoined : normalize piecesTokens = .ok joinedTokens := by decide +kernel
  have hrefused : normalize piecesTokens.reverse = .error (.outOfOrder 2 ⟨1, 8⟩ ⟨1, 9⟩) := by
    decide +kernel
  have htexts : ∀ a ∈ piecesTokens, a.isPiece = true → a.text ≠ [] := by decide +kernel
  have htexts' : ∀ a ∈ piecesTokens.reverse, a.isPiece = true → a.text ≠ [] := fun a ha =>
    htexts a (List.mem_reverse.1 ha)
  have hdisorder : ¬ piecesTokens.reverse.IsChain Before := fun hchain => by
    cases (normalize_of_isChain hchain).symm.trans hrefused
  obtain ⟨joined, hok, hnormalizes⟩ :=
    (normalize_merges_split_identifiers htexts).2 (coarsens_of_normalize hjoined).1
  obtain rfl := Except.ok.inj (hok.symm.trans hjoined)
  obtain ⟨front, a, b, back, hsplit, hchain, -, herror⟩ :=
    (normalize_merges_split_identifiers htexts').1 hdisorder
  rw [hrefused] at herror
  obtain ⟨hlength, -, -⟩ := TokenizeError.outOfOrder.inj (Except.error.inj herror)
  refine ⟨hjoined, (hnormalizes joinedTokens).2 rfl, hdisorder, ?_, hrefused⟩
  have htake : piecesTokens.reverse.take 2 = front ++ [a] := by
    rw [hsplit, List.append_cons]
    exact List.take_left' (by simp [hlength])
  rwa [htake]

end SourceSpans
