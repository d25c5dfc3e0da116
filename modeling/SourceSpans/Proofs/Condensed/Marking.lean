import SourceSpans.Proofs.Condensed.Extent
import SourceSpans.Proofs.Condensed.Literals
import SourceSpans.Proofs.Mark.Coverage

/-!
# Marking without comments

Marking a tree against a source goes the same way as marking it against the condensed source, rank by rank.
Each step of the one run has its step in the other one: `enter_follows`, `introduce_follows`,
`adopt_follows` and `leave_follows`. So a whole visit follows the visit of the condensed source
(`visit_follows`): it fails with the same error, or all ranges that it gives are the ranges there by their
ranks.

The cursor may stand at a comment. What the two cursors have in common is their rank.
-/

namespace SourceSpans

open SyntaxTree (subtreesAll)

/-- The range of the tokens with the ranks of a range. -/
noncomputable def Source.nthRange (s : Source) (r : TokenRange) : TokenRange :=
  ⟨s.nth r.first, s.nth r.last, r.anchor⟩

/-- A claim of the tokens with the ranks of what is claimed. -/
noncomputable def Source.nthClaim (s : Source) : Claim → Claim
  | .tokens span => .tokens (s.nthSpan span)
  | .nothing waiting => .nothing waiting

/-- A state of marking that is a state of marking the condensed source by ranks. -/
structure Pass.Follows (s : Source) (pass condensed : Pass) : Prop where
  rank_cursor : s.rank pass.cursor = condensed.cursor
  entries_eq : pass.ranges.entries = condensed.ranges.entries.map fun e => (e.1, s.nthRange e.2)
  entered_eq : pass.entered = condensed.entered

/-- A frame that is a frame of marking the condensed source by ranks. -/
structure Frame.Follows (s : Source) (f condensed : Frame) : Prop where
  rank_floor : s.rank f.floor = condensed.floor
  head?_eq : f.head? = condensed.head?.map s.nthSpan
  introduced_eq : f.introduced = condensed.introduced
  spans_eq : f.spans = condensed.spans.map s.nthSpan
  waiting_eq : f.waiting = condensed.waiting

/-- A node hands on what it does in the condensed source by ranks, and leaves such a state. -/
def HandsOn (s : Source) (visited condensed : Claim × Pass) : Prop :=
  visited.1 = s.nthClaim condensed.1 ∧ visited.2.Follows s condensed.2

variable {s : Source}

theorem Pass.Follows.give {pass condensed : Pass} (hpass : pass.Follows s condensed)
    (ids : List NodeId) (r : TokenRange) :
    (pass.give ids (s.nthRange r)).Follows s (condensed.give ids r) where
  rank_cursor := hpass.rank_cursor
  entries_eq := by
    rw [Pass.entries_give, Pass.entries_give, hpass.entries_eq, List.map_append, List.map_reverse,
      List.map_map]
    rfl
  entered_eq := hpass.entered_eq

theorem nthSpan_union (s : Source) (a b : Span) :
    s.nthSpan (a.union b) = (s.nthSpan a).union (s.nthSpan b) := by
  have hmono := s.strictMono_nth.monotone
  simp [Span.union, Source.nthSpan, hmono.map_min, hmono.map_max]

theorem Frame.Follows.hull?_eq {f condensed : Frame} (hf : f.Follows s condensed) :
    f.hull? = condensed.hull?.map s.nthSpan := by
  have hparts : f.head?.toList ++ f.spans =
      (condensed.head?.toList ++ condensed.spans).map s.nthSpan := by
    rw [hf.head?_eq, hf.spans_eq, List.map_append]
    rcases condensed.head? with _ | head <;> rfl
  unfold hull?
  rw [hparts]
  rcases condensed.head?.toList ++ condensed.spans with _ | ⟨span, rest⟩
  · rfl
  · rw [List.map_cons]
    dsimp only
    rw [Option.map_some, List.foldl_map]
    exact congrArg some (List.foldl_hom _ fun a b => (nthSpan_union s a b).symm)

namespace Marker.Condenses

variable {m c : Marker} (h : c.Condenses m)

include h

/-! ### Steps -/

theorem introAt?_eq (r : Rule) (cursor : Nat) :
    m.introAt? r cursor = (c.introAt? r (m.source.rank cursor)).map m.source.nthSpan := by
  have hlexical : Token.IsLexical fun t => !t.kind.isLayout := fun t u hkind _ => by
    simp only [hkind]
  have hpassed : ∀ i, m.source.holdsAt (fun t => !t.kind.isLayout) i = true →
      m.source.isPassed i = false := by
    intro i hi
    refine Source.not_isPassed_of_holdsAt (fun t ht => ?_) hi
    rcases hkind : t.kind <;> simp_all [TokenKind.isLayout, TokenKind.isNonCoding]
  unfold introAt?
  rw [h.findUp_eq hpassed (h.holdsAt_nth hlexical)]
  exact bind_map_eq _ (h.map_anyForwardAt?_nth r.intro)

/-- A head is an `intro` at its place if it is one by its ranks. -/
theorem isIntro_nthSpan (r : Rule) (head : Span) :
    (r.intro.any fun ps => m.forwardAt? ps (m.source.nthSpan head).first ==
        some (m.source.nthSpan head).last) =
      r.intro.any fun ps => c.forwardAt? ps head.first == some head.last := by
  refine congrArg (r.intro.any ·) (funext fun ps => ?_)
  rw [Source.first_nthSpan, Source.last_nthSpan, h.forwardAt?_nth]
  rcases c.forwardAt? ps head.first with _ | last
  · rfl
  · simp [Option.map_some]

theorem enter_follows (id : NodeId) (rule? : Option Rule) (parentFloor : Nat)
    {pass condensed : Pass} (hpass : pass.Follows m.source condensed) :
    (m.enter id rule? parentFloor pass).1.Follows m.source
        (c.enter id rule? (m.source.rank parentFloor) condensed).1 ∧
      (m.enter id rule? parentFloor pass).2.Follows m.source
        (c.enter id rule? (m.source.rank parentFloor) condensed).2 := by
  have hhead : (rule?.bind fun r => m.search? r.head pass.cursor parentFloor) =
      (rule?.bind fun r => c.search? r.head condensed.cursor (m.source.rank parentFloor)).map
        m.source.nthSpan := by
    rw [Option.map_bind, ← hpass.rank_cursor]
    exact congrArg _ (funext fun r => h.search?_eq r.head pass.cursor parentFloor)
  unfold enter
  dsimp only
  rw [hhead]
  generalize (rule?.bind fun r => c.search? r.head condensed.cursor (m.source.rank parentFloor)) =
    head?
  have hentered : id :: pass.entered = id :: condensed.entered := by rw [hpass.entered_eq]
  rcases head? with _ | head
  · refine ⟨⟨hpass.rank_cursor, rfl, ?_, rfl, rfl⟩,
      ⟨hpass.rank_cursor, hpass.entries_eq, hentered⟩⟩
    cases rule? <;> rfl
  · refine ⟨⟨hpass.rank_cursor, rfl, ?_, rfl, rfl⟩,
      ⟨m.source.rank_nth_add_one head.last, hpass.entries_eq, hentered⟩⟩
    rcases rule? with _ | r
    · rfl
    · exact h.isIntro_nthSpan r head

theorem introduce_follows (rule? : Option Rule) {f f' : Frame} {pass condensed : Pass}
    (hf : f.Follows m.source f') (hpass : pass.Follows m.source condensed) :
    (m.introduce rule? f pass).1.Follows m.source (c.introduce rule? f' condensed).1 ∧
      (m.introduce rule? f pass).2.Follows m.source (c.introduce rule? f' condensed).2 := by
  have hintro : (rule?.bind fun r => m.introAt? r pass.cursor) =
      (rule?.bind fun r => c.introAt? r condensed.cursor).map m.source.nthSpan := by
    rw [Option.map_bind, ← hpass.rank_cursor]
    exact congrArg _ (funext fun r => h.introAt?_eq r pass.cursor)
  unfold introduce
  rw [hf.introduced_eq, hintro]
  split_ifs
  · exact ⟨hf, hpass⟩
  rcases rule?.bind fun r => c.introAt? r condensed.cursor with _ | span
  · exact ⟨hf, hpass⟩
  · refine ⟨⟨hf.rank_floor, ?_, rfl, hf.spans_eq, hf.waiting_eq⟩,
      ⟨m.source.rank_nth_add_one span.last, hpass.entries_eq, hpass.entered_eq⟩⟩
    show some _ = some _
    rw [hf.head?_eq]
    rcases f'.head? with _ | head
    · rfl
    · exact congrArg some (nthSpan_union m.source head span).symm

omit h in
/-- What a child claims is adopted as it is in the condensed source. -/
theorem adopt_follows {f f' : Frame} {pass condensed : Pass} (hf : f.Follows m.source f')
    (hpass : pass.Follows m.source condensed) (claim : Claim) :
    (f.adopt (m.source.nthClaim claim) pass).1.Follows m.source (f'.adopt claim condensed).1 ∧
      (f.adopt (m.source.nthClaim claim) pass).2.Follows m.source
        (f'.adopt claim condensed).2 := by
  cases claim with
  | tokens span =>
    refine ⟨⟨hf.rank_floor, hf.head?_eq, hf.introduced_eq, ?_, rfl⟩, ?_⟩
    · show f.spans ++ _ = (f'.spans ++ _).map _
      rw [hf.spans_eq, List.map_append]
      rfl
    · have hgive := hpass.give f.waiting (TokenRange.emptyBefore span.first)
      rw [hf.waiting_eq] at hgive
      show (pass.give f.waiting _).Follows _ _
      rw [hf.waiting_eq]
      exact hgive
  | nothing waiting =>
    refine ⟨⟨hf.rank_floor, hf.head?_eq, hf.introduced_eq, hf.spans_eq, ?_⟩, hpass⟩
    show f.waiting ++ waiting = f'.waiting ++ waiting
    rw [hf.waiting_eq]

/-- A leaf has the tokens that it has in the condensed source, or is missed in both. -/
theorem leaf?_eq {literal? : Option Literal}
    (hliteral : ∀ literal, literal? = some literal → literal.IsSettledIn m.source)
    (rule? : Option Rule) (parentFloor cursor : Nat) :
    m.leaf? literal? rule? parentFloor cursor =
      (c.leaf? literal? rule? (m.source.rank parentFloor) (m.source.rank cursor)).map
        (Option.map m.source.nthSpan) := by
  unfold leaf?
  rcases literal? with _ | literal
  · dsimp only
    rw [Except.map, Option.map_bind]
    exact congrArg Except.ok (congrArg _ (funext fun r => h.search?_eq r.empty cursor parentFloor))
  · dsimp only
    rw [h.findLiteral?_eq (hliteral literal rfl)]
    rcases c.findLiteral? literal (m.source.rank cursor) with _ | span <;> rfl

theorem leave_follows (id : NodeId) (kind : String) {literal? : Option Literal}
    (hliteral : ∀ literal, literal? = some literal → literal.IsSettledIn m.source)
    (rule? : Option Rule) (parentFloor : Nat) {f f' : Frame} {pass condensed : Pass}
    (hf : f.Follows m.source f') (hpass : pass.Follows m.source condensed) :
    Agree (HandsOn m.source) (m.leave id kind literal? rule? parentFloor f pass)
      (c.leave id kind literal? rule? (m.source.rank parentFloor) f' condensed) := by
  have hfound : f.hull?.elim (m.leaf? literal? rule? parentFloor pass.cursor)
        (fun span => .ok (some span)) =
      (f'.hull?.elim (c.leaf? literal? rule? (m.source.rank parentFloor) condensed.cursor)
        fun span => .ok (some span)).map (Option.map m.source.nthSpan) := by
    rw [hf.hull?_eq, ← hpass.rank_cursor]
    rcases f'.hull? with _ | hull
    · exact h.leaf?_eq hliteral rule? parentFloor pass.cursor
    · rfl
  unfold leave
  rw [hfound]
  rcases f'.hull?.elim (c.leaf? literal? rule? (m.source.rank parentFloor) condensed.cursor)
    fun span => .ok (some span) with wanted | found?
  · rw [hpass.entered_eq]
    exact .error _
  rcases found? with _ | found
  · refine .ok ⟨?_, hpass⟩
    show Claim.nothing _ = Claim.nothing _
    rw [hf.waiting_eq]
  · have hspan : m.extend rule? f.floor f.spans (m.source.nthSpan found) =
        m.source.nthSpan (c.extend rule? f'.floor f'.spans found) := by
      rw [hf.spans_eq, h.extend_nthSpan, hf.rank_floor]
    simp only [Except.map, Option.map_some]
    rw [hspan]
    generalize c.extend rule? f'.floor f'.spans found = span
    have hgive := (hpass.give [id] (TokenRange.ofTokens span.first span.last)).give f'.waiting
      (TokenRange.emptyAfter span.last)
    rw [← hf.waiting_eq] at hgive
    refine .ok ⟨rfl, ?_, hgive.entries_eq.trans ?_, hpass.entered_eq⟩
    · show m.source.rank (max pass.cursor (m.source.nth span.last + 1)) = _
      rw [m.source.monotone_rank.map_max, hpass.rank_cursor, Source.rank_nth_add_one]
      rfl
    · rw [hf.waiting_eq]

/-! ### Visits -/

mutual

/-- **A visit goes by ranks**, if the literals in the tree are settled. -/
theorem visit_follows : (t : SyntaxTree) →
    (∀ u ∈ t.subtrees, ∀ literal, u.literal? = some literal → literal.IsSettledIn m.source) →
    ∀ (parentFloor : Nat) {pass condensed : Pass}, pass.Follows m.source condensed →
    Agree (HandsOn m.source) (m.visit parentFloor t pass)
      (c.visit (m.source.rank parentFloor) t condensed)
  | .node id kind literal? children, hliterals, parentFloor, pass, condensed, hpass => by
      obtain ⟨hf, hpass⟩ := h.enter_follows id (m.policy.rule? kind) parentFloor hpass
      rw [visit_node, visit_node, h.policy_eq]
      refine (visitAll_follows children
        (fun u hu => hliterals u (List.mem_cons_of_mem _ hu)) _ hf hpass).bind ?_
      rintro ⟨f, pass⟩ ⟨f', condensed⟩ ⟨hf, hpass⟩
      exact h.leave_follows id kind (hliterals _ List.mem_cons_self) _ parentFloor hf hpass

/-- The visits of the children of a node go by ranks. -/
theorem visitAll_follows : (ts : List SyntaxTree) →
    (∀ u ∈ subtreesAll ts, ∀ literal, u.literal? = some literal → literal.IsSettledIn m.source) →
    ∀ (rule? : Option Rule) {f f' : Frame} {pass condensed : Pass}, f.Follows m.source f' →
    pass.Follows m.source condensed →
    Agree (fun r r' => r.1.Follows m.source r'.1 ∧ r.2.Follows m.source r'.2)
      (m.visitAll rule? ts f pass) (c.visitAll rule? ts f' condensed)
  | [], hliterals, rule?, f, f', pass, condensed, hf, hpass => .ok ⟨hf, hpass⟩
  | child :: rest, hliterals, rule?, f, f', pass, condensed, hf, hpass => by
      obtain ⟨hf, hpass⟩ := h.introduce_follows rule? hf hpass
      rw [visitAll_cons, visitAll_cons, ← hf.rank_floor]
      refine (visit_follows child (fun u hu => hliterals u (List.mem_append_left _ hu)) _
        hpass).bind ?_
      rintro ⟨claim, pass⟩ ⟨claim', condensed⟩ ⟨hclaim, hpass⟩
      obtain ⟨hf, hpass⟩ := adopt_follows hf hpass claim'
      rw [← hclaim] at hf hpass
      exact visitAll_follows rest (fun u hu => hliterals u (List.mem_append_right _ hu)) rule? hf
        hpass

end

end Marker.Condenses

end SourceSpans
