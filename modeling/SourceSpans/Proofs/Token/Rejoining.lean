import SourceSpans.Proofs.Source.Offsets
import SourceSpans.Proofs.Token.Joining

/-!
# Joining twice

Joining the pieces of split identifiers leaves nothing to join (`normalize_idempotent`), so it does not
matter whether the tokens that make a source were joined before.

* **Rules** (`Joins`): from the first token on, a token is kept if the longest stretch from it holds no
  error token, and otherwise this stretch becomes one name.
* **Stretches** (`Joins.take_stretchFrom`): a stretch without error tokens is the same in what comes of
  joining. It is no longer, because a beginning of an identifier is an identifier, and a token that is kept
  in it begins no stretch that reaches further. A name that was joined is a stretch of its own, because
  its stretch was the longest one (`stretchFrom_drop`). So joining keeps every token (`join_join`).
* **Runs** (`Joins.isChain`, `splitBy_joined`): a name goes on from and with the same tokens as the stretch
  in its place, so joined tokens fall into the runs of which they come.
-/

namespace SourceSpans

open RawToken (spelled Before)

/-! ### Stretches -/

namespace Text

/-- After an identifier, what may stand inside one goes on with it. -/
theorem isIdentifier_append {s : Text} (hs : isIdentifier s = true) (t : Text) :
    isIdentifier (s ++ t) = t.all isXidContinue := by
  cases s with
  | nil => cases hs
  | cons c s =>
    rw [isIdentifier_cons, Bool.and_eq_true] at hs
    rw [List.cons_append, isIdentifier_cons, List.all_append, hs.1, hs.2, Bool.true_and,
      Bool.true_and]

end Text

variable {sofar : Text} {t last : RawToken} {others rest fine coarse joined : List RawToken}

theorem stretchFrom_cons_of_continues (hmeets : last.meets t = true)
    (hid : Text.isIdentifier (sofar ++ t.text) = true) (rest : List RawToken) :
    stretchFrom sofar last (t :: rest) = stretchFrom (sofar ++ t.text) t rest + 1 := by
  rw [stretchFrom, hmeets, hid]
  rfl

theorem stretchFrom_cons_eq_zero
    (h : (last.meets t && Text.isIdentifier (sofar ++ t.text)) = false) (rest : List RawToken) :
    stretchFrom sofar last (t :: rest) = 0 := by
  rw [stretchFrom, h]
  rfl

/-- How far an identifier goes on does not depend on what it begins with. -/
theorem stretchFrom_congr {s s' : Text} (hs : Text.isIdentifier s = true)
    (hs' : Text.isIdentifier s' = true) (last : RawToken) (rest : List RawToken) :
    stretchFrom s last rest = stretchFrom s' last rest := by
  induction rest generalizing s s' last with
  | nil => rfl
  | cons t rest ih =>
    have hiff : Text.isIdentifier (s ++ t.text) = Text.isIdentifier (s' ++ t.text) := by
      rw [Text.isIdentifier_append hs, Text.isIdentifier_append hs']
    rw [stretchFrom, stretchFrom, hiff]
    split_ifs with hgoesOn
    · have hid' := (Bool.and_eq_true _ _ ▸ hgoesOn).2
      rw [ih (hiff.trans hid') hid' t]
    · rfl

theorem stretchFrom_congr_last {last' : RawToken} (h : ∀ a, last.meets a = last'.meets a) (sofar : Text)
    (rest : List RawToken) : stretchFrom sofar last rest = stretchFrom sofar last' rest := by
  cases rest with
  | nil => rfl
  | cons t rest => rw [stretchFrom, stretchFrom, h]

theorem stretchFrom_le (sofar : Text) (last : RawToken) (rest : List RawToken) :
    stretchFrom sofar last rest ≤ rest.length := by
  induction rest generalizing sofar last with
  | nil => exact Nat.le_refl 0
  | cons t rest ih =>
    rw [stretchFrom]
    split_ifs
    · exact Nat.succ_le_succ (ih _ t)
    · exact Nat.zero_le _

theorem merged_meets_of_meets (h : last.meets t = true) (others : List RawToken) (a : RawToken) :
    (merged last (t :: others)).meets a = (merged t others).meets a := by
  have hline : last.start.line = t.start.line := by
    rw [RawToken.meets, Bool.and_eq_true, beq_iff_eq, beq_iff_eq] at h
    exact h.2
  rw [RawToken.meets, RawToken.meets]
  simp only [merged, List.getLast_cons_cons, hline]

/-- Nothing goes on with a stretch that is joined. -/
theorem stretchFrom_drop (sofar : Text) (last : RawToken) (rest : List RawToken) :
    stretchFrom (sofar ++ spelled (rest.take (stretchFrom sofar last rest)))
      (merged last (rest.take (stretchFrom sofar last rest)))
      (rest.drop (stretchFrom sofar last rest)) = 0 := by
  induction rest generalizing sofar last with
  | nil => rfl
  | cons t rest ih =>
    cases hgoesOn : last.meets t && Text.isIdentifier (sofar ++ t.text) with
    | false =>
      rw [stretchFrom_cons_eq_zero hgoesOn, List.take_zero, List.drop_zero, RawToken.spelled_nil,
        List.append_nil]
      exact stretchFrom_cons_eq_zero hgoesOn rest
    | true =>
      rw [Bool.and_eq_true] at hgoesOn
      rw [stretchFrom_cons_of_continues hgoesOn.1 hgoesOn.2, List.take_succ_cons, List.drop_succ_cons,
        RawToken.spelled_cons, ← List.append_assoc,
        stretchFrom_congr_last (merged_meets_of_meets hgoesOn.1 _)]
      exact ih _ t

/-- Whether there is an error token among tokens. -/
def hasError (tokens : List RawToken) : Bool := tokens.any (·.kind == .errorToken)

/-- The longest stretch at the start of tokens. -/
def stretch (tokens : List RawToken) : List RawToken := tokens.take (stretchLength tokens)

theorem stretch_cons (t : RawToken) (rest : List RawToken) :
    stretch (t :: rest) =
      if Text.isIdentifier t.text then t :: rest.take (stretchFrom t.text t rest) else [] := by
  rw [stretch, stretchLength]
  split_ifs <;> rfl

/-! ### The rules of joining -/

/-- Tokens are joined to others. -/
inductive Joins : (fine coarse : List RawToken) → Prop
  | nil : Joins [] []
  /-- A token is kept if no stretch with an error token begins there. -/
  | keep {t : RawToken} {rest joined : List RawToken} (hstretch : hasError (stretch (t :: rest)) = false)
      (h : Joins rest joined) : Joins (t :: rest) (t :: joined)
  /-- A stretch with an error token becomes one name. -/
  | merge {t : RawToken} {others rest joined : List RawToken} (hid : Text.isIdentifier t.text = true)
      (hlength : stretchFrom t.text t (others ++ rest) = others.length)
      (herror : hasError (t :: others) = true) (h : Joins rest joined) :
      Joins (t :: others ++ rest) (merged t others :: joined)

theorem join_cons_of_keep (h : hasError (stretch (t :: rest)) = false) :
    join (t :: rest) = t :: join rest := by
  rw [stretch_cons] at h
  rw [join, join]
  simp only [joinFrom, stretchLength]
  split_ifs at h ⊢ with hid hjoin hjoin
  · exact absurd hjoin.2 (Bool.eq_false_iff.1 h)
  · rfl
  · exact absurd rfl hjoin.1
  · rfl

theorem join_cons_of_merge (hid : Text.isIdentifier t.text = true)
    (hlength : stretchFrom t.text t (others ++ rest) = others.length)
    (herror : hasError (t :: others) = true) :
    join (t :: others ++ rest) = merged t others :: join rest := by
  have hothers : (others ++ rest).take (others.length + 1 - 1) = others := List.take_left
  rw [List.cons_append, join, join]
  simp only [joinFrom, stretchLength, hid, if_true, hlength, hothers]
  rw [if_pos ⟨Nat.succ_ne_zero _, herror⟩, joinFrom_eq_drop, List.drop_left]

/-- **Joining follows the rules.** -/
theorem joins_join (tokens : List RawToken) : Joins tokens (join tokens) := by
  induction hlen : tokens.length using Nat.strongRecOn generalizing tokens with
  | _ n ih =>
    cases tokens with
    | nil => exact .nil
    | cons t rest =>
      rw [List.length_cons] at hlen
      cases hstretch : hasError (stretch (t :: rest)) with
      | false =>
        rw [join_cons_of_keep hstretch]
        exact .keep hstretch (ih rest.length (by omega) rest rfl)
      | true =>
        rw [stretch_cons] at hstretch
        split_ifs at hstretch with hid
        · generalize hk : stretchFrom t.text t rest = k at hstretch
          have hsplit : rest.take k ++ rest.drop k = rest := List.take_append_drop k rest
          have hlength : stretchFrom t.text t (rest.take k ++ rest.drop k) = (rest.take k).length := by
            rw [hsplit, hk, List.length_take_of_le (hk ▸ stretchFrom_le t.text t rest)]
          have hrest : Joins (rest.drop k) (join (rest.drop k)) :=
            ih (rest.drop k).length (by rw [List.length_drop]; omega) (rest.drop k) rfl
          have hmerge := Joins.merge hid hlength hstretch hrest
          rwa [← join_cons_of_merge hid hlength hstretch, List.cons_append, hsplit] at hmerge
        · cases hstretch

namespace Joins

/-- An identifier goes on with as many tokens after joining, if none of them is an error token. -/
theorem take_stretchFrom (h : Joins fine coarse) (hsofar : Text.isIdentifier sofar = true)
    (herror : hasError (fine.take (stretchFrom sofar last fine)) = false) :
    coarse.take (stretchFrom sofar last coarse) = fine.take (stretchFrom sofar last fine) := by
  induction h generalizing sofar last with
  | nil => rfl
  | @keep t rest joined _ _ ih =>
    cases hgoesOn : last.meets t && Text.isIdentifier (sofar ++ t.text) with
    | false => rw [stretchFrom_cons_eq_zero hgoesOn, stretchFrom_cons_eq_zero hgoesOn]; rfl
    | true =>
      rw [Bool.and_eq_true] at hgoesOn
      rw [stretchFrom_cons_of_continues hgoesOn.1 hgoesOn.2] at herror ⊢
      rw [stretchFrom_cons_of_continues hgoesOn.1 hgoesOn.2, List.take_succ_cons, List.take_succ_cons,
        ih hgoesOn.2 (Bool.or_eq_false_iff.1 herror).2]
  | @merge t others rest joined hid hlength hmerge _ ih =>
    cases hgoesOn : last.meets t && Text.isIdentifier (sofar ++ t.text) with
    | false =>
      -- nor does the name go on with the identifier, which it would have to from its beginning
      have hname : (last.meets (merged t others) &&
          Text.isIdentifier (sofar ++ (merged t others).text)) = false := by
        have hne : sofar ++ t.text ≠ [] := by
          intro hnil
          rw [(List.append_eq_nil_iff.1 hnil).1] at hsofar
          cases hsofar
        rw [← Bool.not_eq_true, Bool.and_eq_true] at hgoesOn ⊢
        rintro ⟨hmeets, hname⟩
        rw [merged, ← List.append_assoc] at hname
        exact hgoesOn ⟨hmeets, Text.isIdentifier_of_append hne hname⟩
      rw [List.cons_append, stretchFrom_cons_eq_zero hgoesOn, stretchFrom_cons_eq_zero hname]
      rfl
    | true =>
      -- the whole stretch goes on with the identifier, and its error token with it
      rw [Bool.and_eq_true] at hgoesOn
      rw [List.cons_append, stretchFrom_cons_of_continues hgoesOn.1 hgoesOn.2,
        stretchFrom_congr hgoesOn.2 hid, hlength, ← List.cons_append,
        ← List.length_cons, List.take_left, hmerge] at herror
      cases herror

/-- Joining keeps the tokens that come of joining. -/
theorem join_eq (h : Joins fine coarse) : join coarse = coarse := by
  induction h with
  | nil => rfl
  | @keep t rest joined hstretch h ih =>
    have hsame : stretch (t :: joined) = stretch (t :: rest) := by
      rw [stretch_cons] at hstretch
      rw [stretch_cons, stretch_cons]
      split_ifs at hstretch ⊢ with hid
      · rw [h.take_stretchFrom hid (Bool.or_eq_false_iff.1 hstretch).2]
      · rfl
    rw [join_cons_of_keep (hsame ▸ hstretch), ih]
  | @merge t others rest joined hid hlength _ h ih =>
    have hdrop : stretchFrom (merged t others).text (merged t others) rest = 0 := by
      have hlast := stretchFrom_drop t.text t (others ++ rest)
      rwa [hlength, List.take_left, List.drop_left] at hlast
    have hstretch : hasError (stretch (merged t others :: joined)) = false := by
      rw [stretch_cons]
      split_ifs with hname
      · have htake := h.take_stretchFrom hname (by rw [hdrop]; rfl)
        rw [htake, hdrop]
        rfl
      · rfl
    rw [join_cons_of_keep hstretch, ih]

end Joins

/-- **Joining twice is joining once.** -/
theorem join_join (tokens : List RawToken) : join (join tokens) = join tokens :=
  (joins_join tokens).join_eq

/-! ### Runs -/

/-- What ends tokens that go on with one another from a piece goes on as the name in their place does. -/
theorem merged_continues (hpiece : t.isPiece = true)
    (hchain : (t :: others).IsChain fun a b => a.continues b = true) (b : RawToken) :
    (merged t others).continues b =
      ((t :: others).getLast (List.cons_ne_nil _ _)).continues b := by
  induction others generalizing t with
  | nil =>
    rw [RawToken.continues, List.getLast_singleton, RawToken.continues, hpiece]
    rfl
  | cons d others ih =>
    rw [List.isChain_cons_cons] at hchain
    obtain ⟨-, hd, hmeets⟩ := RawToken.isPiece_and_meets_of_continues hchain.1
    rw [List.getLast_cons_cons, ← ih hd hchain.2, RawToken.continues, RawToken.continues,
      merged_meets_of_meets hmeets]
    rfl

/-- The first token of a stretch with an error token may be a piece of an identifier. -/
theorem isPiece_of_hasError (hchain : (t :: others).IsChain fun a b => a.continues b = true)
    (herror : hasError (t :: others) = true) : t.isPiece = true := by
  cases others with
  | nil =>
    have hkind : t.kind = .errorToken := by simpa [hasError] using herror
    rw [RawToken.isPiece, hkind]
  | cons d others =>
    rw [List.isChain_cons_cons] at hchain
    exact (RawToken.isPiece_and_meets_of_continues hchain.1).1

theorem continues_merged (hpiece : t.isPiece = true) (others : List RawToken) (a : RawToken) :
    a.continues (merged t others) = a.continues t := by
  rw [RawToken.continues, RawToken.continues, hpiece]
  rfl

/-- Tokens are replaced by others, each of which goes on with the same tokens as what it replaces. -/
inductive Replaces : (fine coarse : List RawToken) → Prop
  | nil : Replaces [] []
  | cons {a first : RawToken} {others fine coarse : List RawToken}
      (hfirst : ∀ b : RawToken, b.continues a = b.continues first)
      (hlast : ∀ b, a.continues b = ((first :: others).getLast (List.cons_ne_nil _ _)).continues b)
      (h : Replaces fine coarse) : Replaces (first :: others ++ fine) (a :: coarse)

/-- Of tokens that go on with one another, a name goes on with the same ones as the stretch in its
place. -/
theorem Joins.replaces (h : Joins fine coarse)
    (hchain : fine.IsChain fun a b => a.continues b = true) : Replaces fine coarse := by
  induction h with
  | nil => exact .nil
  | @keep t rest joined _ _ ih =>
    have hkept : Replaces (t :: [] ++ rest) (t :: joined) :=
      .cons (fun _ => rfl) (fun _ => rfl) (ih hchain.tail)
    exact hkept
  | @merge t others rest joined _ _ herror _ ih =>
    obtain ⟨hstretch, hrest, -⟩ := List.isChain_append.1 hchain
    have hpiece := isPiece_of_hasError hstretch herror
    exact .cons (continues_merged hpiece others) (merged_continues hpiece hstretch) (ih hrest)

namespace Replaces

theorem head? (h : Replaces fine coarse) :
    ∀ b ∈ coarse.head?, ∃ c ∈ fine.head?, ∀ a : RawToken, a.continues b = a.continues c := by
  intro b hb
  cases h with
  | nil => cases hb
  | @cons a first others _ _ hfirst _ _ =>
    obtain rfl := Option.some.inj hb
    exact ⟨first, rfl, hfirst⟩

theorem getLast? (h : Replaces fine coarse) :
    ∀ a ∈ coarse.getLast?, ∃ c ∈ fine.getLast?, ∀ b, a.continues b = c.continues b := by
  induction h with
  | nil => nofun
  | @cons a first others fine coarse _ hlast h ih =>
    intro b hb
    rw [List.getLast?_append]
    cases h with
    | nil =>
      obtain rfl := Option.some.inj hb
      exact ⟨_, List.getLast?_eq_some_getLast (List.cons_ne_nil first others), hlast⟩
    | cons _ _ _ =>
      rw [List.getLast?_cons_cons] at hb
      obtain ⟨c, hc, hsame⟩ := ih b hb
      rw [Option.mem_def.1 hc]
      exact ⟨c, rfl, hsame⟩

/-- What replaces tokens that go on with one another does so, too. -/
theorem isChain (h : Replaces fine coarse)
    (hchain : fine.IsChain fun a b => a.continues b = true) :
    coarse.IsChain fun a b => a.continues b = true := by
  induction h with
  | nil => exact .nil
  | @cons a first others fine coarse _ hlast h ih =>
    obtain ⟨-, hfine, hnext⟩ := List.isChain_append.1 hchain
    rw [List.isChain_cons]
    refine ⟨?_, ih hfine⟩
    intro b hb
    obtain ⟨c, hc, hsame⟩ := h.head? b hb
    rw [hsame, hlast]
    exact hnext _ (List.getLast?_eq_some_getLast (List.cons_ne_nil first others)) c hc

theorem ne_nil (h : Replaces fine coarse) (hne : fine ≠ []) : coarse ≠ [] := by
  cases h with
  | nil => exact hne
  | cons _ _ _ => exact List.cons_ne_nil _ _

end Replaces

/-- Joined tokens fall into the runs of which they come. -/
theorem splitBy_joined (tokens : List RawToken) :
    ((tokens.splitBy RawToken.continues).map join).flatten.splitBy RawToken.continues =
      (tokens.splitBy RawToken.continues).map join := by
  have hreplaces : ∀ run ∈ tokens.splitBy RawToken.continues, Replaces run (join run) :=
    fun run hrun => (joins_join run).replaces (List.isChain_of_mem_splitBy hrun)
  apply List.splitBy_flatten
  · intro hnil
    obtain ⟨run, hrun, hjoin⟩ := List.mem_map.1 hnil
    exact (hreplaces run hrun).ne_nil (List.ne_nil_of_mem_splitBy hrun) hjoin
  · intro part hpart
    obtain ⟨run, hrun, rfl⟩ := List.mem_map.1 hpart
    exact (hreplaces run hrun).isChain (List.isChain_of_mem_splitBy hrun)
  · rw [List.isChain_map]
    refine (List.isChain_getLast_head_splitBy RawToken.continues tokens).imp_of_mem_imp ?_
    rintro run run' hrun hrun' ⟨hne, hne', hends⟩
    have hjoin := (hreplaces run hrun).ne_nil hne
    have hjoin' := (hreplaces run' hrun').ne_nil hne'
    obtain ⟨c, hc, hlast⟩ :=
      (hreplaces run hrun).getLast? _ (List.getLast?_eq_some_getLast hjoin)
    obtain ⟨c', hc', hfirst⟩ :=
      (hreplaces run' hrun').head? _ (List.head?_eq_some_head hjoin')
    rw [List.getLast?_eq_some_getLast hne] at hc
    rw [List.head?_eq_some_head hne'] at hc'
    obtain rfl := Option.some.inj hc
    obtain rfl := Option.some.inj hc'
    refine ⟨hjoin, hjoin', ?_⟩
    rw [hlast, hfirst]
    exact hends

/-- Normalized tokens stay as they are. -/
theorem normalize_of_normalize {raw : List RawToken} (h : normalize raw = .ok joined) :
    normalize joined = .ok joined := by
  obtain ⟨hchain, hcoarsens⟩ := coarsens_of_normalize h
  rw [normalize_of_isChain hchain] at h
  rw [normalize_of_isChain (hcoarsens.isChain hchain)]
  obtain rfl := Except.ok.inj h
  rw [splitBy_joined, List.map_map]
  have hjoin : join ∘ join = join := funext join_join
  rw [hjoin]

/-- **Normalization is idempotent**, so a source comes out the same whether its tokens are read off the
text, taken as they are read or taken after they were normalized. -/
theorem normalize_idempotent :
    (∀ raw joined, normalize raw = .ok joined → normalize joined = .ok joined) ∧
      ∀ t source, Source.ofText? t = .ok source →
        ∃ raw joined, tokenize t = .ok raw ∧ normalize raw = .ok joined ∧
          Source.ofTokens? t raw = .ok source ∧ Source.ofTokens? t joined = .ok source := by
  refine ⟨fun raw joined => normalize_of_normalize, ?_⟩
  intro t source h
  obtain ⟨raw, hraw, hsource⟩ := bind_eq_ok h
  cases hjoined : normalize raw with
  | error e =>
    rw [Source.ofTokens?, hjoined] at hsource
    cases hsource
  | ok joined =>
    refine ⟨raw, joined, hraw, hjoined, hsource, ?_⟩
    rw [Source.ofTokens?, hjoined] at hsource
    rw [Source.ofTokens?, normalize_of_normalize hjoined]
    exact hsource

/-- An identifier in three pieces, and pieces that are none. -/
def piecesText : Text := "℘·2 = 2·2".toList

/-- The tokens of `piecesText`. -/
def piecesTokens : List RawToken :=
  let line := piecesText
  [⟨.errorToken, "℘".toList, ⟨1, 0⟩, ⟨1, 1⟩, line⟩,
    ⟨.errorToken, "·".toList, ⟨1, 1⟩, ⟨1, 2⟩, line⟩,
    ⟨.number, "2".toList, ⟨1, 2⟩, ⟨1, 3⟩, line⟩,
    ⟨.op, "=".toList, ⟨1, 4⟩, ⟨1, 5⟩, line⟩,
    ⟨.number, "2".toList, ⟨1, 6⟩, ⟨1, 7⟩, line⟩,
    ⟨.errorToken, "·".toList, ⟨1, 7⟩, ⟨1, 8⟩, line⟩,
    ⟨.number, "2".toList, ⟨1, 8⟩, ⟨1, 9⟩, line⟩,
    ⟨.newline, [], ⟨1, 9⟩, ⟨1, 9⟩, line⟩,
    ⟨.endMarker, [], ⟨1, 9⟩, ⟨1, 9⟩, line⟩]

/-- The tokens of `piecesText` with its identifier in one. -/
def joinedTokens : List RawToken :=
  ⟨.name, "℘·2".toList, ⟨1, 0⟩, ⟨1, 3⟩, piecesText⟩ :: piecesTokens.drop 3

theorem normalize_idempotent_piecesText :
    normalize piecesTokens = .ok joinedTokens ∧ normalize joinedTokens = .ok joinedTokens ∧
      Source.ofText? piecesText = .ok (Source.build piecesText joinedTokens) ∧
      tokenize piecesText = .ok piecesTokens ∧
      Source.ofTokens? piecesText piecesTokens = .ok (Source.build piecesText joinedTokens) ∧
      Source.ofTokens? piecesText joinedTokens = .ok (Source.build piecesText joinedTokens) := by
  have h : normalize piecesTokens = .ok joinedTokens := by decide +kernel
  have htokens : tokenize piecesText = .ok piecesTokens := by decide +kernel
  have hsource : Source.ofText? piecesText = .ok (Source.build piecesText joinedTokens) := by
    decide +kernel
  obtain ⟨raw, joined, hraw, hjoined, hof, hof'⟩ := normalize_idempotent.2 _ _ hsource
  obtain rfl := Except.ok.inj (htokens.symm.trans hraw)
  obtain rfl := Except.ok.inj (h.symm.trans hjoined)
  exact ⟨h, normalize_idempotent.1 _ _ h, hsource, htokens, hof, hof'⟩

end SourceSpans
