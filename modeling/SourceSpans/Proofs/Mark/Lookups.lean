import SourceSpans.Proofs.Mark.Verification
import SourceSpans.Proofs.Source.Faithful

/-!
# Asking about marked nodes

Every question about a marked node has an answer, and the answers agree (`lookups_consistent`). The ranges
need not have been made for the source that is asked: they may reach past its last token, or stop long
before it.

* **Edges**: a node starts and stops at edges of tokens, and the offsets of edges are boundaries of the
  text, in the order of the edges. An edge past the last token is the end of the text.
* **Tokens** (`Annotated.exists_tokenAt`): an index past the last token stands for it, and a text has a
  token. An index of a token is the index of this very token (`Annotated.tokenAt_eq_ok`).
* **Runs** (`Source.between_eq`): what stands between two tokens is the run of tokens from the index of the
  one to the index of the other.
-/

namespace SourceSpans

/-- A part of a text with its ends, in bytes and in lines. -/
structure Extract where
  start : Nat
  stop : Nat
  text : Text
  startPosition : Position
  stopPosition : Position
  deriving DecidableEq, Repr

/-- Answers to all questions about a node. -/
structure NodeAnswers extends Extract where
  range : TokenRange
  firstToken : Token
  lastToken : Token
  tokens : List Token
  /-- The tokens without comments and line breaks inside a logical line. -/
  codingTokens : List Token
  deriving DecidableEq, Repr

/-- All questions about a node have answers, and these are the answers. -/
structure Annotated.Answers (a : Annotated) (id : NodeId) (n : NodeAnswers) : Prop where
  range : a.range id = .ok n.range
  textRange : a.textRange id = .ok (n.start, n.stop)
  text : a.text id = .ok n.text
  textPositions : a.textPositions id = .ok (n.startPosition, n.stopPosition)
  firstToken : a.firstToken id = .ok n.firstToken
  lastToken : a.lastToken id = .ok n.lastToken
  tokens : a.tokens id true = .ok n.tokens
  codingTokens : a.tokens id false = .ok n.codingTokens

/-- The ends are boundaries of a text, in order. The part is what stands between them, and the positions
are theirs. -/
structure Extract.IsOf (e : Extract) (t : Text) : Prop where
  start_le_stop : e.start ≤ e.stop
  stop_le_size : e.stop ≤ t.size
  isBoundary_start : t.isBoundary e.start = true
  isBoundary_stop : t.isBoundary e.stop = true
  slice?_eq : t.slice? e.start e.stop = some e.text
  position?_start : t.position? e.start = some e.startPosition
  position?_stop : t.position? e.stop = some e.stopPosition

/-- The tokens are those of a source from the first to the last of the range, and the coding tokens are the
coding ones among them. They begin with the first token and end with the last one, which start and stop
where the node does. -/
structure NodeAnswers.IsRunOf (n : NodeAnswers) (s : Source) : Prop where
  tokens_eq : n.tokens = (s.tokens.toList.take (n.range.last + 1)).drop n.range.first
  codingTokens_eq : n.codingTokens = n.tokens.filter fun a => !a.kind.isNonCoding
  head?_eq : n.tokens.head? = some n.firstToken
  getLast?_eq : n.tokens.getLast? = some n.lastToken
  start_eq : n.start = n.firstToken.startOffset
  stop_eq : n.stop = n.lastToken.stopOffset
  startPosition_eq : n.startPosition = n.firstToken.start
  stopPosition_eq : n.stopPosition = n.lastToken.stop

theorem TokenRange.lowEdge_le_highEdge {r : TokenRange} (h : r.first ≤ r.last) :
    r.lowEdge ≤ r.highEdge := by
  unfold lowEdge highEdge
  split <;> omega

/-- What stands between two tokens is the run of tokens from the index of the one to that of the other. -/
theorem Source.between_eq (s : Source) {first last : Token} (hlast : last.index < s.size)
    (includeExtra : Bool) :
    s.between first last includeExtra =
      ((s.tokens.toList.take (last.index + 1)).drop first.index).filter (isMet includeExtra) := by
  have hmin : min last.index (s.size - 1) = last.index := by omega
  rw [between, hmin, Array.toList_extract, List.extract_eq_drop_take', List.drop_take]

namespace Annotated

variable {a : Annotated} {id : NodeId} {r : TokenRange}

theorem range_eq_ok (h : a.ranges.get? id = some r) : a.range id = .ok r := by
  rw [range, h]

theorem offsets_eq (h : a.ranges.get? id = some r) :
    a.offsets id = (a.source.edgeOffset r.lowEdge, a.source.edgeOffset r.highEdge) := by
  rw [offsets_of_get? h, TokenRange.textRange_eq]

theorem textRange_eq_ok (h : a.ranges.get? id = some r) : a.textRange id = .ok (a.offsets id) := by
  rw [offsets_of_get? h, textRange, range_eq_ok h]
  rfl

/-- The text between the offsets of a node. -/
def ownText (a : Annotated) (id : NodeId) : Text :=
  (Text.slice? a.source.text (a.offsets id).1 (a.offsets id).2).getD []

theorem text_eq_ok (h : a.ranges.get? id = some r) : a.text id = .ok (a.ownText id) := by
  rw [text, textRange_eq_ok h]
  rfl

theorem textPositions_eq_ok (h : a.ranges.get? id = some r) {p q : Position}
    (hp : Text.position? a.source.text (a.offsets id).1 = some p)
    (hq : Text.position? a.source.text (a.offsets id).2 = some q) :
    a.textPositions id = .ok (p, q) := by
  have hstart : a.positionAt (a.offsets id).1 = .ok p := by rw [positionAt, hp]
  have hstop : a.positionAt (a.offsets id).2 = .ok q := by rw [positionAt, hq]
  rw [textPositions, textRange_eq_ok h]
  show (do return (← a.positionAt (a.offsets id).1, ← a.positionAt (a.offsets id).2)) = _
  rw [hstart, hstop]
  rfl

/-- An index of a token gives this token. -/
theorem tokenAt_eq_ok {i : Nat} {b : Token} (h : a.source.tokens[i]? = some b) :
    a.tokenAt i = .ok b := by
  have hlt : i < a.source.size := (Array.getElem?_eq_some_iff.1 h).1
  have hmin : min i (a.source.size - 1) = i := by omega
  rw [tokenAt, hmin, h]

/-- Every index stands for a token if there is one at all. -/
theorem exists_tokenAt (hpos : 0 < a.source.size) (i : Nat) : ∃ b, a.tokenAt i = .ok b := by
  have hlt : min i (a.source.size - 1) < a.source.tokens.size := by
    have hsize : a.source.size = a.source.tokens.size := rfl
    omega
  refine ⟨a.source.tokens[min i (a.source.size - 1)], ?_⟩
  rw [tokenAt, Array.getElem?_eq_getElem hlt]

theorem firstToken_eq (h : a.ranges.get? id = some r) : a.firstToken id = a.tokenAt r.first := by
  rw [firstToken, range_eq_ok h]
  rfl

theorem lastToken_eq (h : a.ranges.get? id = some r) : a.lastToken id = a.tokenAt r.last := by
  rw [lastToken, range_eq_ok h]
  rfl

/-- The tokens of a node stand between its first token and its last one; a node with an empty range has
none. -/
theorem tokens_eq_ok (h : a.ranges.get? id = some r) {first last : Token}
    (hfirst : a.tokenAt r.first = .ok first) (hlast : a.tokenAt r.last = .ok last)
    (includeExtra : Bool) :
    a.tokens id includeExtra =
      .ok (if r.isEmpty then [] else a.source.between first last includeExtra) := by
  rw [tokens, range_eq_ok h]
  show (if r.isEmpty then .ok []
    else do return a.source.between (← a.tokenAt r.first) (← a.tokenAt r.last) includeExtra) = _
  rw [hfirst, hlast]
  split_ifs <;> rfl

/-- A node stands between two boundaries of the text, wherever its range lies. -/
theorem exists_extract {t : Text} (hsource : Source.ofText? t = .ok a.source)
    (h : a.ranges.get? id = some r) (hr : r.first ≤ r.last) :
    ∃ e : Extract, e.IsOf t ∧ a.textRange id = .ok (e.start, e.stop) ∧ a.text id = .ok e.text ∧
      a.textPositions id = .ok (e.startPosition, e.stopPosition) := by
  have htext : a.source.text = t := Source.text_of_ofText? hsource
  have hoffsets := offsets_eq h
  have hle := Source.edgeOffset_mono hsource (TokenRange.lowEdge_le_highEdge hr)
  have hstart := Source.isBoundary_edgeOffset hsource r.lowEdge
  have hstop := Source.isBoundary_edgeOffset hsource r.highEdge
  obtain ⟨part, hpart⟩ := Text.exists_slice?_eq_some hle hstart hstop
  obtain ⟨p, hp⟩ := Text.exists_position?_eq_some hstart
  obtain ⟨q, hq⟩ := Text.exists_position?_eq_some hstop
  refine ⟨⟨a.source.edgeOffset r.lowEdge, a.source.edgeOffset r.highEdge, part, p, q⟩,
    ⟨hle, Text.le_size_of_isBoundary hstop, hstart, hstop, hpart, hp, hq⟩, ?_, ?_, ?_⟩
  · rw [textRange_eq_ok h, hoffsets]
  · rw [text_eq_ok h, ownText, htext, hoffsets, hpart]
    rfl
  · apply textPositions_eq_ok h
    · rw [htext, hoffsets, hp]
    · rw [htext, hoffsets, hq]

/-- The ends of a range that holds tokens of the source are tokens, and the offsets of the node are
theirs. -/
theorem exists_ends (h : a.ranges.get? id = some r) (hr : r.first ≤ r.last)
    (hne : r.isEmpty = false) (hlast : r.last < a.source.size) :
    ∃ b c, a.source.tokens[r.first]? = some b ∧ a.source.tokens[r.last]? = some c ∧
      a.offsets id = (b.startOffset, c.stopOffset) := by
  have hfirst : r.first < a.source.tokens.size := lt_of_le_of_lt hr hlast
  have hb := Array.getElem?_eq_getElem hfirst
  have hc := Array.getElem?_eq_getElem (show r.last < a.source.tokens.size from hlast)
  obtain ⟨hlow, hhigh⟩ := TokenRange.edges_of_not_isEmpty hne
  refine ⟨_, _, hb, hc, ?_⟩
  rw [offsets_eq h, hlow, hhigh, Source.edgeOffset_two_mul, Source.edgeOffset_two_mul_add_one,
    Source.startOffset, Source.stopOffset, hb, hc]

/-- The tokens of a node from one token to another are the run of tokens from the index of the one to that
of the other. -/
theorem tokens_eq_ok_run (h : a.ranges.get? id = some r) (hne : r.isEmpty = false) {b c : Token}
    (hb : a.source.tokens[r.first]? = some b) (hc : a.source.tokens[r.last]? = some c)
    (hbIndex : b.index = r.first) (hcIndex : c.index = r.last) (includeExtra : Bool) :
    a.tokens id includeExtra =
      .ok (((a.source.tokens.toList.take (r.last + 1)).drop r.first).filter
        (Source.isMet includeExtra)) := by
  have hlt : c.index < a.source.size := by
    rw [hcIndex]
    exact (Array.getElem?_eq_some_iff.1 hc).1
  rw [tokens_eq_ok h (tokenAt_eq_ok hb) (tokenAt_eq_ok hc), hne, Source.between_eq _ hlt, hbIndex,
    hcIndex]
  rfl

end Annotated

/-- The first and the last element of a run. -/
theorem ends_of_drop_take {α : Type} {l : List α} {i j : Nat} {b c : α} (hij : i ≤ j)
    (hb : l[i]? = some b) (hc : l[j]? = some c) :
    ((l.take (j + 1)).drop i).head? = some b ∧ ((l.take (j + 1)).drop i).getLast? = some c := by
  have hj : j < l.length := (List.getElem?_eq_some_iff.1 hc).1
  constructor
  · rw [List.head?_drop, List.getElem?_take_of_lt (Nat.lt_succ_of_le hij), hb]
  · have hlength : ¬ (l.take (j + 1)).length ≤ i := by
      rw [List.length_take]
      omega
    rw [List.getLast?_drop, if_neg hlength, List.getLast?_take, if_neg j.succ_ne_zero,
      Nat.add_sub_cancel, hc]
    rfl

section consistent

variable {t : Text} {source target : Source} {policy : PolicyTable} {g : NodeTable} {root id : NodeId}
  {ranges : RangeTable}

namespace Extract.IsOf

variable {e : Extract} {b : Token}

theorem startPosition_eq (h : e.IsOf t) (hb : b.FaithfulTo t) (hstart : e.start = b.startOffset) :
    e.startPosition = b.start := by
  have hp := h.position?_start
  rw [hstart, hb.position?_start] at hp
  exact (Option.some.inj hp).symm

theorem stopPosition_eq (h : e.IsOf t) (hb : b.FaithfulTo t) (hstop : e.stop = b.stopOffset) :
    e.stopPosition = b.stop := by
  have hp := h.position?_stop
  rw [hstop, hb.position?_stop] at hp
  exact (Option.some.inj hp).symm

end Extract.IsOf

namespace Annotated.Answers

variable {a : Annotated} {n : NodeAnswers}

theorem tokens_eq_run (h : a.Answers id n) {run : List Token}
    (hrun : ∀ includeExtra, a.tokens id includeExtra = .ok (run.filter (Source.isMet includeExtra))) :
    n.tokens = run ∧ n.codingTokens = n.tokens.filter fun a => !a.kind.isNonCoding := by
  have htokens : n.tokens = run := by
    rw [← Except.ok.inj ((hrun true).symm.trans h.tokens)]
    exact List.filter_eq_self.2 fun b _ => rfl
  refine ⟨htokens, ?_⟩
  rw [htokens]
  exact (Except.ok.inj ((hrun false).symm.trans h.codingTokens)).symm

theorem unique (h : a.Answers id n) {n' : NodeAnswers} (h' : a.Answers id n') : n = n' := by
  obtain ⟨⟨start, stop, text, startPosition, stopPosition⟩, range, first, last, tokens, coding⟩ := n
  obtain ⟨hstart, hstop⟩ := Prod.mk.inj (Except.ok.inj (h.textRange.symm.trans h'.textRange))
  obtain ⟨hfrom, hto⟩ := Prod.mk.inj (Except.ok.inj (h.textPositions.symm.trans h'.textPositions))
  have hrange := Except.ok.inj (h.range.symm.trans h'.range)
  have htext := Except.ok.inj (h.text.symm.trans h'.text)
  have hfirst := Except.ok.inj (h.firstToken.symm.trans h'.firstToken)
  have hlast := Except.ok.inj (h.lastToken.symm.trans h'.lastToken)
  have htokens := Except.ok.inj (h.tokens.symm.trans h'.tokens)
  have hcoding := Except.ok.inj (h.codingTokens.symm.trans h'.codingTokens)
  dsimp only at hstart hstop hfrom hto hrange htext hfirst hlast htokens hcoding
  subst hstart hstop hfrom hto hrange htext hfirst hlast htokens hcoding
  rfl

/-- The answers about a range of tokens of the source are about a run of its tokens. -/
theorem isRunOf (h : a.Answers id n) (hsource : Source.ofText? t = .ok a.source) (hof : n.IsOf t)
    (hget : a.ranges.get? id = some n.range) (hr : n.range.first ≤ n.range.last)
    (hne : n.range.isEmpty = false) (hlast : n.range.last < a.source.size) : n.IsRunOf a.source := by
  obtain ⟨b, c, hb, hc, hoffsets⟩ := exists_ends hget hr hne hlast
  obtain ⟨hbIndex, hbText⟩ := Source.faithfulTo_of_ofText? hsource hb
  obtain ⟨hcIndex, hcText⟩ := Source.faithfulTo_of_ofText? hsource hc
  obtain rfl : b = n.firstToken :=
    Except.ok.inj (((firstToken_eq hget).trans (tokenAt_eq_ok hb)).symm.trans h.firstToken)
  obtain rfl : c = n.lastToken :=
    Except.ok.inj (((lastToken_eq hget).trans (tokenAt_eq_ok hc)).symm.trans h.lastToken)
  obtain ⟨hstart, hstop⟩ : n.start = n.firstToken.startOffset ∧ n.stop = n.lastToken.stopOffset := by
    have hrange := h.textRange.symm.trans (textRange_eq_ok hget)
    rw [hoffsets] at hrange
    exact Prod.mk.inj (Except.ok.inj hrange)
  obtain ⟨htokens, hcoding⟩ := h.tokens_eq_run (tokens_eq_ok_run hget hne hb hc hbIndex hcIndex)
  rw [← Array.getElem?_toList] at hb hc
  obtain ⟨hhead, hgetLast⟩ := ends_of_drop_take hr hb hc
  rw [← htokens] at hhead hgetLast
  exact ⟨htokens, hcoding, hhead, hgetLast, hstart, hstop, hof.startPosition_eq hbText hstart,
    hof.stopPosition_eq hcText hstop⟩

end Annotated.Answers

/-- **Questions about marked nodes are answered, and the answers agree.** Mark a graph against any source,
and ask about a marked node on any source of a text. The node starts and stops at boundaries of the text,
in order; its text is what stands between them, and its positions are theirs. If the node has tokens and
the last of them is a token of the source, its tokens are those from the first to the last index, and it
starts and stops where they do. -/
theorem lookups_consistent (hmark : mark source policy g root = .ok ranges)
    (htarget : Source.ofText? t = .ok target) (hid : ranges.contains id = true) :
    ∃ n : NodeAnswers, (⟨target, ranges⟩ : Annotated).Answers id n ∧ n.IsOf t ∧
      (n.range.isEmpty = false → n.range.last < target.size → n.IsRunOf target) := by
  obtain ⟨r, hr⟩ := Option.isSome_iff_exists.1 hid
  have hle := (inBounds_of_mark hmark hr).1
  obtain ⟨a, rfl, rfl⟩ : ∃ a : Annotated, a.source = target ∧ a.ranges = ranges :=
    ⟨⟨target, ranges⟩, rfl, rfl⟩
  have hpos := Source.size_pos_of_ofText? htarget
  obtain ⟨e, he, hrange, htext, hpositions⟩ := Annotated.exists_extract htarget hr hle
  obtain ⟨b, hb⟩ := a.exists_tokenAt hpos r.first
  obtain ⟨c, hc⟩ := a.exists_tokenAt hpos r.last
  have htokens := Annotated.tokens_eq_ok hr hb hc
  have hanswers : a.Answers id ⟨e, r, b, c, _, _⟩ :=
    ⟨Annotated.range_eq_ok hr, hrange, htext, hpositions, (Annotated.firstToken_eq hr).trans hb,
      (Annotated.lastToken_eq hr).trans hc, htokens true, htokens false⟩
  exact ⟨_, hanswers, he, hanswers.isRunOf htarget he hr hle⟩

end consistent

/-- The end of the text of `nameSource`. -/
def endToken : Token := ⟨⟨.endMarker, [], ⟨2, 0⟩, ⟨2, 0⟩, []⟩, 2, 2, 2⟩

/-- What is answered about the token at the end. -/
def endAnswers : NodeAnswers where
  start := 2
  stop := 2
  text := []
  startPosition := ⟨2, 0⟩
  stopPosition := ⟨2, 0⟩
  range := .ofTokens 2 2
  firstToken := endToken
  lastToken := endToken
  tokens := [endToken]
  codingTokens := [endToken]

/-- The argument of a call that was marked elsewhere, asked about on a line that holds a name only: the
end of the text. -/
theorem lookups_consistent_callRanges :
    mark callSource .empty callGraph 1 = .ok callRanges ∧
      Source.ofText? ['x', '\n'] = .ok nameSource ∧ callRanges.contains 4 = true ∧
      (⟨nameSource, callRanges⟩ : Annotated).Answers 4 endAnswers ∧ endAnswers.IsOf ['x', '\n'] ∧
      endAnswers.IsRunOf nameSource := by
  have hmark : mark callSource .empty callGraph 1 = .ok callRanges := by decide +kernel
  have htarget : Source.ofText? ['x', '\n'] = .ok nameSource := by decide +kernel
  have hid : callRanges.contains 4 = true := by decide
  have hend : (⟨nameSource, callRanges⟩ : Annotated).Answers 4 endAnswers := by
    constructor <;> decide +kernel
  obtain ⟨n, hanswers, hof, hrun⟩ := lookups_consistent hmark htarget hid
  obtain rfl := hend.unique hanswers
  exact ⟨hmark, htarget, hid, hend, hof, hrun rfl (by decide)⟩

end SourceSpans
