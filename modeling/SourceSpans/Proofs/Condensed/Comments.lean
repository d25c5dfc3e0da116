import SourceSpans.Proofs.Condensed.Marking
import SourceSpans.Proofs.Mark.Nesting

/-!
# Comments do not influence marking

Two sources that differ in comments and in line breaks inside logical lines only have the same condensed
source. Marking a tree against either of them follows marking it against this one, and so the two find the
same (`mark_of_coding_eq`): marking succeeds against both or against none, the same nodes are without
tokens, and the other ones begin and end at corresponding tokens (`Source.Corresponds`).

The nodes that still wait when the root is done are put at the cursor, which may stand at different tokens
in the two sources. That is why the places of nodes without tokens are not compared.
-/

namespace SourceSpans

/-! ### Two sources -/

/-- Tokens of two sources that are not passed over and have as many such tokens before them. -/
structure Source.Corresponds (s s' : Source) (i i' : Nat) : Prop where
  lt_size : i < s.size
  lt_size' : i' < s'.size
  not_isPassed : s.isPassed i = false
  not_isPassed' : s'.isPassed i' = false
  rank_eq : s.rank i = s'.rank i'

/-- What marking gives, from the visit of the condensed source: the ranges there by their ranks, and one
empty range for all nodes that wait in the end. -/
def GivesByRank (s : Source) (pass : Pass) (condensed : Claim × Pass) : Prop :=
  ∃ i, ∀ e, e ∈ pass.ranges.entries ↔
    e.1 ∈ condensed.1.waiting ∧ e.2 = TokenRange.emptyBefore i ∨
      ∃ r, (e.1, r) ∈ condensed.2.ranges.entries ∧ e.2 = s.nthRange r

theorem Pass.Follows.mem_entries_iff {s : Source} {pass condensed : Pass}
    (hpass : pass.Follows s condensed) (e : NodeId × TokenRange) :
    e ∈ pass.ranges.entries ↔ ∃ r, (e.1, r) ∈ condensed.ranges.entries ∧ e.2 = s.nthRange r := by
  rw [hpass.entries_eq, List.mem_map]
  constructor
  · rintro ⟨⟨id, r⟩, hr, rfl⟩
    exact ⟨r, hr, rfl⟩
  · rintro ⟨r, hr, he⟩
    exact ⟨(e.1, r), hr, by rw [← he]⟩

theorem Marker.Condenses.markTree_follows {m c : Marker} (h : c.Condenses m) (hsize : m.size ≠ 0)
    {tree : SyntaxTree} (hliterals : ∀ u ∈ tree.subtrees, ∀ literal, u.literal? = some literal →
      literal.IsSettledIn m.source) :
    Agree (GivesByRank m.source) (m.markTree tree) (c.visit 0 tree Pass.initial) := by
  have hinitial : Pass.initial.Follows m.source Pass.initial :=
    ⟨m.source.rank_zero, rfl, rfl⟩
  have hvisit := h.visit_follows tree hliterals 0 hinitial
  rw [Source.rank_zero] at hvisit
  unfold markTree
  rw [if_neg hsize]
  generalize m.visit 0 tree Pass.initial = visited at hvisit ⊢
  generalize c.visit 0 tree Pass.initial = condensed at hvisit ⊢
  cases hvisit with
  | error failure => exact .error failure
  | @ok visited condensed hvisited =>
    obtain ⟨claim, pass⟩ := visited
    obtain ⟨claim', condensed⟩ := condensed
    obtain ⟨hclaim, hpass⟩ := hvisited
    dsimp only at hclaim hpass
    subst hclaim
    cases claim' with
    | tokens span =>
      refine .ok ⟨0, fun e => ?_⟩
      rw [hpass.mem_entries_iff]
      simp [Claim.waiting]
    | nothing waiting =>
      refine .ok ⟨min pass.cursor (m.size - 1), fun e => ?_⟩
      rw [Pass.mem_entries_give, hpass.mem_entries_iff]
      rfl

section mark

variable {s s' : Source} {policy : PolicyTable} {g : NodeTable} {root : NodeId}
  {ranges ranges' : RangeTable}

/-- Marking against a source gives what the visit of its condensed source says. -/
theorem mark_follows (hsize : s.size ≠ 0)
    (hliterals : ∀ id ∈ g.walk root, ∀ literal, g.literal? id = some literal →
      literal.IsSettledIn s) :
    Agree (GivesByRank s) ((Marker.new s policy).markTree (g.unfolding root))
      ((Marker.new s.condensed policy).visit 0 (g.unfolding root) Pass.initial) := by
  refine (Marker.condenses_new s policy).markTree_follows hsize fun u hu literal hliteral => ?_
  rw [NodeTable.literal?_of_mem_subtrees hu] at hliteral
  refine hliterals u.id ?_ literal hliteral
  rw [← NodeTable.preorder_unfolding, ← SyntaxTree.map_id_subtrees]
  exact List.mem_map_of_mem hu

theorem exists_mark_iff (hsize : s.size ≠ 0)
    (hliterals : ∀ id ∈ g.walk root, ∀ literal, g.literal? id = some literal →
      literal.IsSettledIn s) :
    (∃ ranges, mark s policy g root = .ok ranges) ↔
      ∃ r, (Marker.new s.condensed policy).visit 0 (g.unfolding root) Pass.initial = .ok r := by
  have hfollows : Agree (GivesByRank s) ((Marker.new s policy).markTree (g.unfolding root))
      ((Marker.new s.condensed policy).visit 0 (g.unfolding root) Pass.initial) :=
    mark_follows hsize hliterals
  constructor
  · rintro ⟨ranges, hmark⟩
    obtain ⟨pass, hpass, -⟩ := exists_of_mark_eq_ok hmark
    obtain ⟨r, hr, -⟩ := hfollows.exists_of_left_eq_ok hpass
    exact ⟨r, hr⟩
  · rintro ⟨r, hr⟩
    obtain ⟨pass, hpass, -⟩ := hfollows.exists_of_right_eq_ok hr
    exact ⟨pass.ranges, by rw [mark, hpass]⟩

/-- A range of tokens that there are begins and ends at tokens with the ranks of its ends. -/
theorem corresponds_of_nthRange {r : TokenRange} (hr : (s.nthRange r).InBounds s.size)
    (hr' : (s'.nthRange r).InBounds s'.size) :
    s.Corresponds s' (s.nthRange r).first (s'.nthRange r).first ∧
      s.Corresponds s' (s.nthRange r).last (s'.nthRange r).last := by
  have hranks : ∀ k, s.nth k < s.size → s'.nth k < s'.size →
      s.Corresponds s' (s.nth k) (s'.nth k) := fun k hk hk' =>
    ⟨hk, hk', s.isPassed_nth k, s'.isPassed_nth k, (s.rank_nth k).trans (s'.rank_nth k).symm⟩
  exact ⟨hranks r.first (hr.1.trans_lt hr.2) (hr'.1.trans_lt hr'.2), hranks r.last hr.2 hr'.2⟩

/-- **Comments and blank lines do not influence marking.** Take two sources with tokens that have the same
kinds and texts in a row once comments and line breaks inside logical lines are left out, and nodes whose
literals are settled in both. Then marking goes through against both or against neither of them. If it does,
every node is without tokens in both or in neither, and a node with tokens begins and ends at corresponding
tokens of the two. -/
theorem mark_of_coding_eq (hsize : s.size ≠ 0) (hsize' : s'.size ≠ 0)
    (hcoding : s.coding = s'.coding)
    (hliterals : ∀ id ∈ g.walk root, ∀ literal, g.literal? id = some literal →
      literal.IsSettledIn s ∧ literal.IsSettledIn s') :
    ((∃ ranges, mark s policy g root = .ok ranges) ↔
      ∃ ranges, mark s' policy g root = .ok ranges) ∧
    ∀ ranges ranges', mark s policy g root = .ok ranges → mark s' policy g root = .ok ranges' →
      ∀ id ∈ g.walk root, ∃ r r', ranges.get? id = some r ∧ ranges'.get? id = some r' ∧
        r.isEmpty = r'.isEmpty ∧ (r.isEmpty = false →
          s.Corresponds s' r.first r'.first ∧ s.Corresponds s' r.last r'.last) := by
  have hcondensed : s.condensed = s'.condensed := congrArg Source.ofCoding hcoding
  have hsettled : ∀ id ∈ g.walk root, ∀ literal, g.literal? id = some literal →
      literal.IsSettledIn s := fun id hid literal hl => (hliterals id hid literal hl).1
  have hsettled' : ∀ id ∈ g.walk root, ∀ literal, g.literal? id = some literal →
      literal.IsSettledIn s' := fun id hid literal hl => (hliterals id hid literal hl).2
  constructor
  · rw [exists_mark_iff hsize hsettled, exists_mark_iff hsize' hsettled', hcondensed]
  intro ranges ranges' hmark hmark' id hid
  obtain ⟨pass, hpass, rfl⟩ := exists_of_mark_eq_ok hmark
  obtain ⟨pass', hpass', rfl⟩ := exists_of_mark_eq_ok hmark'
  obtain ⟨visited, hvisited, i, hgives⟩ :=
    (mark_follows hsize hsettled).exists_of_left_eq_ok hpass
  obtain ⟨visited', hvisited', i', hgives'⟩ :=
    (mark_follows hsize' hsettled').exists_of_left_eq_ok hpass'
  rw [hcondensed] at hvisited
  obtain rfl := Except.ok.inj (hvisited.symm.trans hvisited')
  obtain ⟨r, hr⟩ := exists_get?_of_mark hmark hid
  rcases (hgives (id, r)).1 (RangeTable.mem_of_get?_eq_some hr) with ⟨hwaiting, rfl⟩ | ⟨q, hq, rfl⟩
  · have hmem := (hgives' (id, TokenRange.emptyBefore i')).2 (Or.inl ⟨hwaiting, rfl⟩)
    exact ⟨_, _, hr, RangeTable.get?_eq_some_of_mem (nodup_ids_of_mark hmark') hmem, rfl, nofun⟩
  · have hmem := (hgives' (id, s'.nthRange q)).2 (Or.inr ⟨q, hq, rfl⟩)
    have hr' := RangeTable.get?_eq_some_of_mem (nodup_ids_of_mark hmark') hmem
    exact ⟨_, _, hr, hr', rfl, fun _ =>
      corresponds_of_nthRange (inBounds_of_mark hmark hr) (inBounds_of_mark hmark' hr')⟩

end mark

/-! ### A call with a comment in it -/

/-- The call `f(x)` with a comment and a line break after its first parenthesis. -/
def commentedSource : Source :=
  Source.build "f(#\nx)".toList
    [⟨.name, ['f'], ⟨1, 0⟩, ⟨1, 1⟩, "f(#\n".toList⟩,
      ⟨.op, ['('], ⟨1, 1⟩, ⟨1, 2⟩, "f(#\n".toList⟩,
      ⟨.comment, ['#'], ⟨1, 2⟩, ⟨1, 3⟩, "f(#\n".toList⟩,
      ⟨.nl, ['\n'], ⟨1, 3⟩, ⟨2, 0⟩, "f(#\n".toList⟩,
      ⟨.name, ['x'], ⟨2, 0⟩, ⟨2, 1⟩, "x)".toList⟩,
      ⟨.op, [')'], ⟨2, 1⟩, ⟨2, 2⟩, "x)".toList⟩]

/-- The ranges of the call, the name, the node that waits and the argument there. -/
def commentedRanges : RangeTable where
  entries := [(1, .ofTokens 0 5), (3, .emptyBefore 4), (4, .ofTokens 4 4), (2, .ofTokens 0 0)]

/-- The argument, token 2, is token 4 behind the comment, and the end of the call, token 3, is token 5. -/
theorem mark_of_coding_eq_call :
    callSource.size ≠ 0 ∧ commentedSource.size ≠ 0 ∧ callSource.coding = commentedSource.coding ∧
      (∀ id ∈ callGraph.walk 1, ∀ literal, callGraph.literal? id = some literal →
        literal.IsSettledIn callSource ∧ literal.IsSettledIn commentedSource) ∧
      mark callSource .empty callGraph 1 = .ok callRanges ∧
      mark commentedSource .empty callGraph 1 = .ok commentedRanges ∧
      (∀ id ∈ callGraph.walk 1, ∃ r r', callRanges.get? id = some r ∧
        commentedRanges.get? id = some r' ∧ r.isEmpty = r'.isEmpty ∧ (r.isEmpty = false →
          callSource.Corresponds commentedSource r.first r'.first ∧
            callSource.Corresponds commentedSource r.last r'.last)) ∧
      callSource.Corresponds commentedSource 2 4 ∧ callSource.Corresponds commentedSource 3 5 := by
  have hcoding : callSource.coding = commentedSource.coding := by decide
  have hwalk : callGraph.walk 1 = [1, 2, 3, 4] := by
    rw [← NodeTable.preorder_unfolding]
    decide
  have hsettled : ∀ id ∈ [1, 2, 3, 4], ∀ literal ∈ callGraph.literal? id,
      literal.IsSettledIn callSource ∧ literal.IsSettledIn commentedSource := by
    decide +kernel
  have hliterals : ∀ id ∈ callGraph.walk 1, ∀ literal, callGraph.literal? id = some literal →
      literal.IsSettledIn callSource ∧ literal.IsSettledIn commentedSource := by
    intro id hid literal hliteral
    rw [hwalk] at hid
    exact hsettled id hid literal hliteral
  have hmark : mark callSource .empty callGraph 1 = .ok callRanges := by decide +kernel
  have hmark' : mark commentedSource .empty callGraph 1 = .ok commentedRanges := by decide +kernel
  obtain ⟨-, hall⟩ := @mark_of_coding_eq callSource commentedSource .empty callGraph 1
    (by decide) (by decide) hcoding hliterals
  have hranges := hall callRanges commentedRanges hmark hmark'
  refine ⟨by decide, by decide, hcoding, hliterals, hmark, hmark', hranges, ?_, ?_⟩
  · obtain ⟨r, r', hr, hr', -, hends⟩ := hranges 4 (by rw [hwalk]; decide)
    obtain rfl : TokenRange.ofTokens 2 2 = r := Option.some.inj hr
    obtain rfl : TokenRange.ofTokens 4 4 = r' := Option.some.inj hr'
    exact (hends rfl).1
  · obtain ⟨r, r', hr, hr', -, hends⟩ := hranges 1 (by rw [hwalk]; decide)
    obtain rfl : TokenRange.ofTokens 0 3 = r := Option.some.inj hr
    obtain rfl : TokenRange.ofTokens 0 5 = r' := Option.some.inj hr'
    exact (hends rfl).2

end SourceSpans
