import Mathlib.Data.List.Forall2
import SourceSpans.Proofs.Mark.TextRuns

/-!
# Marking finds the leftmost runs

Marking never goes back: the run of a literal is taken from where the one before it has ended. For a graph
whose leaves are texts and in which nothing else claims tokens this loses nothing. Marking succeeds whenever
there are runs for the texts at all, one behind the other, and the runs that it finds are the leftmost ones
(`marking_is_leftmost`).

* **Texts in turn** (`Marker.exists_findTexts?_eq_some`): whatever runs are chosen for the texts, the first run of
  the first text ends no later than the chosen one, so the search for the other texts has at least as much
  room as the choice leaves them.
* **Visits** (`Marker.visit_texts`): a visit of a tree finds its texts in turn, however they are nested. A
  node above them claims nothing but what its children have claimed, so it does not move the cursor.
-/

namespace SourceSpans

open SyntaxTree (subtrees subtreesAll)

/-! ### Texts one after the other -/

namespace Source

/-- Runs of tokens from a token on that spell texts, each run behind the one before it. -/
inductive SpellsInTurn (s : Source) : (i : Nat) → List Text → List Span → Prop
  | nil (i : Nat) : SpellsInTurn s i [] []
  | cons {i : Nat} {w : Text} {ws : List Text} {run : Span} {runs : List Span} (hle : i ≤ run.first)
      (hrun : s.Spells w run) (hrest : SpellsInTurn s (run.last + 1) ws runs) :
      SpellsInTurn s i (w :: ws) (run :: runs)

end Source

/-- The token after several runs, the last one first, or where they begin if there are none. -/
def Span.stopAfter (i : Nat) (runs : List Span) : Nat := runs.foldl (fun _ run => run.last + 1) i

namespace Marker

variable (m : Marker)

/-- The runs that are found for texts, each one from the end of the one before it. -/
def findTexts? : (i : Nat) → List Text → Option (List Span)
  | _, [] => some []
  | i, w :: ws => (m.findText? w i).bind fun run => (findTexts? (run.last + 1) ws).map (run :: ·)

variable {m} {t : Text} {i : Nat} {ws us : List Text} {runs others : List Span}

theorem findTexts?_append (i : Nat) (ws us : List Text) :
    m.findTexts? i (ws ++ us) = (m.findTexts? i ws).bind fun runs =>
      (m.findTexts? (Span.stopAfter i runs) us).map (runs ++ ·) := by
  induction ws generalizing i with
  | nil => simp [findTexts?, Span.stopAfter]
  | cons w ws ih =>
    rw [List.cons_append, findTexts?, findTexts?, Option.bind_assoc]
    apply Option.bind_congr
    intro run _
    rw [ih, Option.map_bind, Option.bind_map]
    apply Option.bind_congr
    intro runs _
    exact Option.map_map _ _ _

section search

variable (h : Source.ofText? t = .ok m.source)

include h

/-- What is found spells the texts. -/
theorem spellsInTurn_of_findTexts? (hruns : m.findTexts? i ws = some runs) :
    m.source.SpellsInTurn i ws runs := by
  induction ws generalizing i runs with
  | nil =>
    obtain rfl := Option.some.inj hruns
    exact .nil i
  | cons w ws ih =>
    obtain ⟨run, hrun, hrest⟩ := Option.bind_eq_some_iff.1 hruns
    obtain ⟨more, hmore, rfl⟩ := Option.map_eq_some_iff.1 hrest
    have hfirst := (findText?_eq_some_iff h).1 hrun
    exact .cons hfirst.le_first hfirst.spells (ih hmore)

/-- If there are runs for the texts then runs are found from any earlier token, and each of them begins and
ends no later than the other one for its text. -/
theorem exists_findTexts?_eq_some (hothers : m.source.SpellsInTurn i ws others) {k : Nat} (hk : k ≤ i) :
    ∃ runs, m.findTexts? k ws = some runs ∧
      List.Forall₂ (fun run other => run.first ≤ other.first ∧ run.last ≤ other.last) runs others := by
  induction hothers generalizing k with
  | nil i => exact ⟨[], rfl, .nil⟩
  | @cons i w ws other others hle hother _ ih =>
    obtain ⟨run, hrun⟩ : ∃ run, m.findText? w k = some run := by
      rw [← Option.ne_none_iff_exists']
      intro hnone
      exact (findText?_eq_none_iff h).1 hnone other (hk.trans hle) hother
    have hfirst := (findText?_eq_some_iff h).1 hrun
    have hlast : run.last ≤ other.last := hfirst.last_le_last h hother (hk.trans hle)
    obtain ⟨runs, hruns, hleast⟩ := ih (Nat.succ_le_succ hlast)
    refine ⟨run :: runs, ?_, .cons ⟨hfirst.first_le other hother (hk.trans hle), hlast⟩ hleast⟩
    rw [findTexts?, hrun, Option.bind_some, hruns]
    rfl

theorem exists_findTexts?_iff :
    (∃ runs, m.findTexts? i ws = some runs) ↔ ∃ runs, m.source.SpellsInTurn i ws runs := by
  constructor
  · rintro ⟨runs, hruns⟩
    exact ⟨runs, spellsInTurn_of_findTexts? h hruns⟩
  · rintro ⟨others, hothers⟩
    obtain ⟨runs, hruns, -⟩ := exists_findTexts?_eq_some h hothers le_rfl
    exact ⟨runs, hruns⟩

/-- The runs that are found are the leftmost ones. -/
theorem findTexts?_least (hruns : m.findTexts? i ws = some runs)
    (hothers : m.source.SpellsInTurn i ws others) :
    List.Forall₂ (fun run other => run.first ≤ other.first ∧ run.last ≤ other.last) runs others := by
  obtain ⟨runs', hruns', hleast⟩ := exists_findTexts?_eq_some h hothers le_rfl
  obtain rfl := Option.some.inj (hruns.symm.trans hruns')
  exact hleast

end search

end Marker

/-! ### The texts of a tree -/

/-- A node with its text, if its literal is a text. -/
def textOf? (id : NodeId) (literal? : Option Literal) : Option (NodeId × Text) :=
  match literal? with
  | some (.text w) => some (id, w)
  | _ => none

namespace SyntaxTree

/-- The nodes of trees that have texts, with these, in the order of the trees. -/
def textsIn (trees : List SyntaxTree) : List (NodeId × Text) :=
  trees.filterMap fun u => textOf? u.id u.literal?

theorem textsIn_node (id : NodeId) (kind : String) (literal? : Option Literal)
    (children : List SyntaxTree) :
    textsIn (subtrees (.node id kind literal? children)) =
      (textOf? id literal?).toList ++ textsIn (subtreesAll children) := by
  rw [subtrees]
  rcases htext : textOf? id literal? with _ | x
  · exact List.filterMap_cons_none htext
  · exact List.filterMap_cons_some htext

theorem textsIn_cons (t : SyntaxTree) (rest : List SyntaxTree) :
    textsIn (subtreesAll (t :: rest)) = textsIn t.subtrees ++ textsIn (subtreesAll rest) := by
  rw [subtreesAll, textsIn, List.filterMap_append]
  rfl

end SyntaxTree

open SyntaxTree (textsIn)

/-- The nodes of the walk that have texts, with these. -/
def NodeTable.texts (g : NodeTable) (root : NodeId) : List (NodeId × Text) :=
  (g.walk root).filterMap fun id => textOf? id (g.literal? id)

theorem NodeTable.textsIn_unfolding (g : NodeTable) (root : NodeId) :
    textsIn (g.unfolding root).subtrees = g.texts root := by
  rw [texts, ← preorder_unfolding, ← SyntaxTree.map_id_subtrees, List.filterMap_map]
  apply List.filterMap_congr
  intro u hu
  rw [literal?_of_mem_subtrees hu]
  rfl

/-! ### Visits that find texts only -/

namespace Marker

variable (m : Marker)

/-- No rule is for the node, and if it has a literal then this is a text and the node is a leaf. -/
def IsPlain (u : SyntaxTree) : Prop :=
  m.policy.rule? u.kind = none ∧ ∀ l, u.literal? = some l → u.children = [] ∧ ∃ w, l = .text w

/-- The nodes with texts have the tokens of their runs. -/
def HaveRuns (s : Pass) (texts : List (NodeId × Text)) (runs : List Span) : Prop :=
  List.Forall₂ (fun x run => (x.1, TokenRange.ofTokens run.first run.last) ∈ s.ranges.entries) texts
    runs

variable {m} {id : NodeId} {kind : String} {literal? : Option Literal} {parentFloor : Nat} {f : Frame}
  {s s' : Pass} {claim : Claim}

theorem HaveRuns.mono {texts : List (NodeId × Text)} {runs : List Span} (h : HaveRuns s texts runs)
    (hsub : s.ranges.entries ⊆ s'.ranges.entries) : HaveRuns s' texts runs :=
  List.Forall₂.imp (fun _ _ hmem => hsub hmem) h

/-- Without partners balancing adds nothing. -/
theorem balanceFrom_eq_self (hpartners : ∀ i, m.partner? i = none) (floor : Nat) (children : List Span)
    (span : Span) (gaps : List (Nat × Nat)) : m.balanceFrom floor children span gaps = span := by
  fun_induction balanceFrom m floor children span gaps with
  | case1 span => rfl
  | case2 span i stop gaps _ ih => exact ih
  | case3 span i stop gaps _ c _ ih => exact ih
  | case4 span i stop gaps _ _ _ ih => exact ih
  | case5 span i stop gaps _ _ p hp => cases (hpartners i).symm.trans hp
  | case6 span i stop gaps _ _ p hp => cases (hpartners i).symm.trans hp
  | case7 span i stop gaps _ _ p hp => cases (hpartners i).symm.trans hp

/-- A node without a rule that is left gets the hull of its children, or else the run of its literal, or
else it waits. -/
theorem leave_plain (hpartners : ∀ i, m.partner? i = none)
    (h : m.leave id kind literal? none parentFloor f s = .ok (claim, s')) :
    (∃ hull, f.hull? = some hull ∧ s'.cursor = max s.cursor (hull.last + 1)) ∨
      (∃ l found, f.hull? = none ∧ literal? = some l ∧ m.findLiteral? l s.cursor = some found ∧
        s'.cursor = max s.cursor (found.last + 1) ∧
        (id, TokenRange.ofTokens found.first found.last) ∈ s'.ranges.entries) ∨
      f.hull? = none ∧ literal? = none ∧ s' = s := by
  have hself : ∀ span : Span, m.balance f.floor f.spans none span = span := fun span =>
    balanceFrom_eq_self hpartners _ _ span _
  rcases leave_none_cases h with ⟨hull, hhull, hclaim⟩ | ⟨l, found, hhull, hl, hfound, hclaim⟩ |
    ⟨hhull, hnone, hclaim⟩ <;> rcases leave_cases h with ⟨_, hclaim', hs⟩ |
      ⟨_, span, _, _, hclaim', hcursor, _, hranges⟩ <;> cases hclaim.symm.trans hclaim'
  · rw [hself] at hcursor
    exact Or.inl ⟨hull, hhull, hcursor⟩
  · rw [hself] at hcursor hranges
    refine Or.inr (Or.inl ⟨l, found, hhull, hl, hfound, hcursor, ?_⟩)
    rw [hranges]
    exact Pass.mem_entries_give.2 (Or.inr (Pass.mem_give List.mem_cons_self _))
  · exact Or.inr (Or.inr ⟨hhull, hnone, hs⟩)

/-- Leaving a node without a rule fails only if it is a leaf with a literal that is not found. -/
theorem leave_none_eq_error {failure : MarkFailure}
    (h : m.leave id kind literal? none parentFloor f s = .error failure) :
    ∃ l, literal? = some l ∧ m.findLiteral? l s.cursor = none := by
  unfold leave at h
  rcases hhull : f.hull? with _ | hull <;> rw [hhull] at h
  · rcases literal? with _ | l
    · cases h
    · refine ⟨l, rfl, ?_⟩
      rw [Option.elim_none, leaf?] at h
      dsimp only at h
      rcases hfound : m.findLiteral? l s.cursor with _ | found
      · rfl
      · rw [hfound] at h
        cases h
  · cases h

/-- A node above the texts that is left does not move the cursor, since its hull ends before it. -/
theorem cursor_of_leave_none (hpartners : ∀ i, m.partner? i = none) {placed waiting : List SyntaxTree}
    (hf : f.Holds m s placed waiting) (hhead : f.head? = none)
    (h : m.leave id kind none none parentFloor f s = .ok (claim, s')) :
    s'.cursor = s.cursor := by
  rcases leave_plain hpartners h with ⟨hull, hhull, hcursor⟩ | ⟨l, _, -, hl, -⟩ | ⟨-, -, rfl⟩
  · have hwithin : hull.Within f.floor s.cursor := by
      refine (Frame.of_hull?_eq_some hhull).2 _ _ fun c hc => ?_
      have hspan := hf.within c hc
      rw [hhead, Option.toList_none, List.nil_append] at hc
      exact ⟨hspan.lo_le, hspan.first_le_last, hf.last_lt c hc⟩
    have hlast := hwithin.last_lt
    omega
  · cases hl
  · rfl

/-- The visit of a leaf with a text finds the text and fails if it cannot be found. -/
theorem visit_leaf (hpartners : ∀ i, m.partner? i = none) (hrule : m.policy.rule? kind = none)
    (id : NodeId) (w : Text) (parentFloor : Nat) (s : Pass) :
    (∀ claim s', m.visit parentFloor (.node id kind (some (.text w)) []) s = .ok (claim, s') →
      ∃ run, m.findText? w s.cursor = some run ∧ s'.cursor = run.last + 1 ∧
        (id, TokenRange.ofTokens run.first run.last) ∈ s'.ranges.entries) ∧
    ∀ failure, m.visit parentFloor (.node id kind (some (.text w)) []) s = .error failure →
      m.findText? w s.cursor = none := by
  rw [visit_node, hrule, visitAll_nil]
  refine ⟨fun claim s' h => ?_, fun failure h => ?_⟩
  · rcases leave_plain hpartners h with ⟨hull, hhull, -⟩ | ⟨l, found, -, hl, hfound, hcursor, hmem⟩ |
      ⟨-, hl, -⟩
    · cases hhull
    · obtain rfl := Option.some.inj hl
      have hwithin := within_of_findLiteral?_eq_some hfound
      have hlo := hwithin.lo_le
      have hle := hwithin.first_le_last
      refine ⟨found, hfound, ?_, hmem⟩
      omega
    · cases hl
  · obtain ⟨l, hl, hnone⟩ := leave_none_eq_error h
    obtain rfl := Option.some.inj hl
    exact hnone

mutual

/-- A visit of a tree in which only texts claim tokens finds its texts in turn, and fails if they cannot be
found. -/
theorem visit_texts (hpartners : ∀ i, m.partner? i = none) : (t : SyntaxTree) →
    (∀ u ∈ t.subtrees, m.IsPlain u) → ∀ (parentFloor : Nat) (s : Pass),
    (∀ claim s', m.visit parentFloor t s = .ok (claim, s') →
      ∃ runs, m.findTexts? s.cursor ((textsIn t.subtrees).map Prod.snd) = some runs ∧
        s'.cursor = Span.stopAfter s.cursor runs ∧ HaveRuns s' (textsIn t.subtrees) runs) ∧
    ∀ failure, m.visit parentFloor t s = .error failure →
      m.findTexts? s.cursor ((textsIn t.subtrees).map Prod.snd) = none
  | .node id kind literal? children, hplain, parentFloor, s => by
      obtain ⟨hrule, hliteral⟩ := hplain _ List.mem_cons_self
      rw [SyntaxTree.textsIn_node]
      rcases literal? with _ | l
      · rcases henter : m.enter id none parentFloor s with ⟨f₀, s₀⟩
        obtain ⟨hf₀, -⟩ := Frame.Holds.enter henter
        obtain ⟨hhead, hcursor₀⟩ : f₀.head? = none ∧ s₀.cursor = s.cursor := by
          obtain ⟨rfl, rfl⟩ := Prod.mk.inj henter
          exact ⟨rfl, rfl⟩
        obtain ⟨hok, herror⟩ := visitAll_texts hpartners children
          (fun u hu => hplain u (List.mem_cons_of_mem _ hu)) f₀ s₀
        rw [hcursor₀] at hok herror
        rw [visit_node, show m.policy.rule? kind = none from hrule, henter]
        refine ⟨fun claim s' h => ?_, fun failure h => ?_⟩
        · obtain ⟨⟨f₁, s₁⟩, hall, hleave⟩ := bind_eq_ok h
          obtain ⟨runs, hruns, hcursor, hgiven⟩ := hok f₁ s₁ hall
          obtain ⟨placed, waiting, -, hf, -⟩ := visitAll_places children hall hf₀
          have hcursor' := cursor_of_leave_none hpartners hf
            ((head?_of_visitAll_none hall).trans hhead) hleave
          exact ⟨runs, hruns, hcursor'.trans hcursor, hgiven.mono (hf.leave hleave).2.subset⟩
        · rcases bind_eq_error h with hall | ⟨⟨f₁, s₁⟩, -, hleave⟩
          · exact herror failure hall
          · obtain ⟨l, hl, -⟩ := leave_none_eq_error hleave
            cases hl
      · obtain ⟨rfl, w, rfl⟩ := hliteral l rfl
        obtain ⟨hok, herror⟩ := visit_leaf hpartners hrule id w parentFloor s
        refine ⟨fun claim s' h => ?_, fun failure h => ?_⟩
        · obtain ⟨run, hrun, hcursor, hmem⟩ := hok claim s' h
          refine ⟨[run], ?_, hcursor, .cons hmem .nil⟩
          simp [textOf?, textsIn, subtreesAll, findTexts?, hrun]
        · simp [textOf?, findTexts?, herror failure h]

/-- The same for the children that are left, of a node without a rule. -/
theorem visitAll_texts (hpartners : ∀ i, m.partner? i = none) : (ts : List SyntaxTree) →
    (∀ u ∈ subtreesAll ts, m.IsPlain u) → ∀ (f : Frame) (s : Pass),
    (∀ f' s', m.visitAll none ts f s = .ok (f', s') →
      ∃ runs, m.findTexts? s.cursor ((textsIn (subtreesAll ts)).map Prod.snd) = some runs ∧
        s'.cursor = Span.stopAfter s.cursor runs ∧ HaveRuns s' (textsIn (subtreesAll ts)) runs) ∧
    ∀ failure, m.visitAll none ts f s = .error failure →
      m.findTexts? s.cursor ((textsIn (subtreesAll ts)).map Prod.snd) = none
  | [], hplain, f, s => by
      refine ⟨fun f' s' h => ?_, fun failure h => ?_⟩
      · obtain ⟨-, rfl⟩ := Prod.mk.inj (Except.ok.inj h)
        exact ⟨[], rfl, rfl, .nil⟩
      · cases h
  | child :: rest, hplain, f, s => by
      have hchild : ∀ u ∈ child.subtrees, m.IsPlain u := fun u hu =>
        hplain u (List.mem_append_left _ hu)
      have hrest : ∀ u ∈ subtreesAll rest, m.IsPlain u := fun u hu =>
        hplain u (List.mem_append_right _ hu)
      obtain ⟨hok, herror⟩ := visit_texts hpartners child hchild f.floor s
      rw [visitAll_cons, introduce_none, SyntaxTree.textsIn_cons, List.map_append, findTexts?_append]
      refine ⟨fun f' s' h => ?_, fun failure h => ?_⟩
      · obtain ⟨⟨claim, s₁⟩, hvisit, hall⟩ := bind_eq_ok h
        obtain ⟨runs, hruns, hcursor, hgiven⟩ := hok claim s₁ hvisit
        obtain ⟨more, hmore, hcursor', hgiven'⟩ := (visitAll_texts hpartners rest hrest _ _).1 f' s' hall
        rw [Frame.cursor_adopt, hcursor] at hmore hcursor'
        refine ⟨runs ++ more, ?_, ?_, ?_⟩
        · rw [hruns, Option.bind_some, hmore]
          rfl
        · rw [hcursor', Span.stopAfter, Span.stopAfter, Span.stopAfter, List.foldl_append]
        · have hkept := (hgiven.mono (f.subset_adopt claim s₁)).mono (subset_of_visitAll hall)
          exact List.rel_append hkept hgiven'
      · rcases bind_eq_error h with hvisit | ⟨⟨claim, s₁⟩, hvisit, hall⟩
        · rw [herror failure hvisit]
          rfl
        · obtain ⟨runs, hruns, hcursor, -⟩ := hok claim s₁ hvisit
          have hmore := (visitAll_texts hpartners rest hrest _ _).2 failure hall
          rw [Frame.cursor_adopt, hcursor] at hmore
          rw [hruns, Option.bind_some, hmore]
          rfl

end

/-- Where a tree is visited without an error it is marked without one, if there are tokens. -/
theorem exists_markTree_iff {tree : SyntaxTree} (hsize : 0 < m.size) :
    (∃ s, m.markTree tree = .ok s) ↔ ∃ claim s, m.visit 0 tree Pass.initial = .ok (claim, s) := by
  constructor
  · rintro ⟨s, hs⟩
    obtain ⟨-, claim, s₁, hvisit, -⟩ := markTree_cases hs
    exact ⟨claim, s₁, hvisit⟩
  · rintro ⟨claim, s₁, hvisit⟩
    unfold markTree
    rw [if_neg hsize.ne', hvisit]
    cases claim with
    | tokens span => exact ⟨_, rfl⟩
    | nothing waiting => exact ⟨_, rfl⟩

end Marker

/-! ### Marked graphs -/

section marked

variable {t : Text} {source : Source} {policy : PolicyTable} {g : NodeTable} {root : NodeId}

theorem exists_mark_eq_ok_iff (hsource : Source.ofText? t = .ok source) :
    (∃ ranges, mark source policy g root = .ok ranges) ↔
      ∃ claim s, (Marker.new source policy).visit 0 (g.unfolding root) Pass.initial = .ok (claim, s) := by
  have hsize : 0 < (Marker.new source policy).size := Source.size_pos_of_ofText? hsource
  rw [← Marker.exists_markTree_iff hsize]
  constructor
  · rintro ⟨ranges, hmark⟩
    obtain ⟨s, hs, -⟩ := exists_of_mark_eq_ok hmark
    exact ⟨s, hs⟩
  · rintro ⟨s, hs⟩
    exact ⟨s.ranges, by rw [mark, hs]⟩

/-- The trees of a graph without rules whose literals are texts of leaves are plain. -/
theorem isPlain_of_mem_subtrees (hrules : ∀ id ∈ g.walk root, policy.rule? (g.kind id) = none)
    (hliterals : ∀ id ∈ g.walk root, ∀ l, g.literal? id = some l →
      g.reachedFrom root id = [] ∧ ∃ w, l = .text w) :
    ∀ u ∈ (g.unfolding root).subtrees, (Marker.new source policy).IsPlain u := by
  intro u hu
  have hwalk : u.id ∈ g.walk root := by
    rw [← NodeTable.preorder_unfolding, ← SyntaxTree.map_id_subtrees]
    exact List.mem_map_of_mem hu
  refine ⟨?_, fun l hl => ?_⟩
  · rw [NodeTable.kind_of_mem_subtrees hu]
    exact hrules u.id hwalk
  · rw [NodeTable.literal?_of_mem_subtrees hu] at hl
    obtain ⟨hleaf, hw⟩ := hliterals u.id hwalk l hl
    rw [← NodeTable.map_id_children hu, List.map_eq_nil_iff] at hleaf
    exact ⟨hleaf, hw⟩

/-- **Marking finds the leftmost runs.** Take a source of a text without brackets, and a graph for whose kinds
there are no rules, in which every literal is a text and stands at a leaf. The graph is marked if and only if
there are runs of tokens that spell its texts in the order of the walk, each run behind the one before it.
Then every node with a text gets such a run, and whatever runs are chosen for the texts, its run begins and
ends no later than the chosen one. -/
theorem marking_is_leftmost (hsource : Source.ofText? t = .ok source)
    (hbrackets : ∀ a ∈ source.tokens, a.isBracket = false)
    (hrules : ∀ id ∈ g.walk root, policy.rule? (g.kind id) = none)
    (hliterals : ∀ id ∈ g.walk root, ∀ l, g.literal? id = some l →
      g.reachedFrom root id = [] ∧ ∃ w, l = .text w) :
    ((∃ ranges, mark source policy g root = .ok ranges) ↔
      ∃ runs, source.SpellsInTurn 0 ((g.texts root).map Prod.snd) runs) ∧
    ∀ ranges, mark source policy g root = .ok ranges →
      ∃ runs, source.SpellsInTurn 0 ((g.texts root).map Prod.snd) runs ∧
        List.Forall₂ (fun x run => ranges.get? x.1 = some (.ofTokens run.first run.last))
          (g.texts root) runs ∧
        ∀ others, source.SpellsInTurn 0 ((g.texts root).map Prod.snd) others →
          List.Forall₂ (fun run other => run.first ≤ other.first ∧ run.last ≤ other.last)
            runs others := by
  have hpartners : ∀ i, (Marker.new source policy).partner? i = none := fun i =>
    Marker.partner?_eq_none fun a ha => hbrackets a (Array.mem_of_getElem? ha)
  obtain ⟨hok, herror⟩ := Marker.visit_texts hpartners _ (isPlain_of_mem_subtrees hrules hliterals) 0
    Pass.initial
  rw [NodeTable.textsIn_unfolding] at hok herror
  refine ⟨?_, fun ranges hmark => ?_⟩
  · have hfound : (∃ runs, (Marker.new source policy).findTexts? 0 ((g.texts root).map Prod.snd) =
          some runs) ↔ ∃ runs, source.SpellsInTurn 0 ((g.texts root).map Prod.snd) runs :=
      Marker.exists_findTexts?_iff hsource
    rw [← hfound]
    rw [exists_mark_eq_ok_iff hsource]
    constructor
    · rintro ⟨claim, s, hvisit⟩
      obtain ⟨runs, hruns, -⟩ := hok claim s hvisit
      exact ⟨runs, hruns⟩
    · rintro ⟨runs, hruns⟩
      rcases hvisit : (Marker.new source policy).visit 0 (g.unfolding root) Pass.initial with
        failure | ⟨claim, s⟩
      · cases (herror failure hvisit).symm.trans hruns
      · exact ⟨claim, s, rfl⟩
  · have hnodup := nodup_ids_of_mark hmark
    obtain ⟨s, hs, rfl⟩ := exists_of_mark_eq_ok hmark
    obtain ⟨claim, s₁, hvisit, hsettles⟩ := Marker.exists_visit_of_markTree hs
    obtain ⟨runs, hruns, -, hgiven⟩ := hok claim s₁ hvisit
    refine ⟨runs, Marker.spellsInTurn_of_findTexts? hsource hruns, ?_, fun others hothers => ?_⟩
    · exact hgiven.imp fun x run hmem => RangeTable.get?_eq_some_of_mem hnodup (hsettles.subset hmem)
    · exact Marker.findTexts?_least (m := Marker.new source policy) hsource hruns hothers

end marked

/-- A node with a name in it, and then a path that begins with the same name. -/
def pathPairGraph : NodeTable where
  nodes := [
    (1, ⟨"Pair", some [2, 3], [], none, none⟩),
    (2, ⟨"Expr", some [4], [], none, none⟩),
    (3, ⟨"Path", some [], [], none, some (.text "é.b".toList)⟩),
    (4, ⟨"Name", some [], [], none, some (.text "é".toList)⟩)]

/-- The ranges of the nodes of `pathPairGraph` in `pathSource`. -/
def pathPairRanges : RangeTable where
  entries := [(1, .ofTokens 0 5), (3, .ofTokens 3 5), (2, .ofTokens 0 0), (4, .ofTokens 0 0)]

/-- The name is found at the start. The path is the last three tokens of the line, and no choice of runs is
further to the left. -/
theorem marking_is_leftmost_path :
    Source.ofText? pathText = .ok pathSource ∧
      (∀ a ∈ pathSource.tokens, a.isBracket = false) ∧
      pathPairGraph.texts 1 = [(4, "é".toList), (3, "é.b".toList)] ∧
      mark pathSource .empty pathPairGraph 1 = .ok pathPairRanges ∧
      pathSource.SpellsInTurn 0 ["é".toList, "é.b".toList] [⟨0, 0⟩, ⟨3, 5⟩] ∧
      ∀ others, pathSource.SpellsInTurn 0 ["é".toList, "é.b".toList] others →
        List.Forall₂ (fun run other : Span => run.first ≤ other.first ∧ run.last ≤ other.last)
          [⟨0, 0⟩, ⟨3, 5⟩] others := by
  have hsource : Source.ofText? pathText = .ok pathSource := by decide +kernel
  have hbrackets : ∀ a ∈ pathSource.tokens, a.isBracket = false := by decide +kernel
  have hmark : mark pathSource .empty pathPairGraph 1 = .ok pathPairRanges := by decide +kernel
  have hwalk : pathPairGraph.walk 1 = [1, 2, 4, 3] := by
    rw [← NodeTable.preorder_unfolding]
    decide
  have htexts : pathPairGraph.texts 1 = [(4, "é".toList), (3, "é.b".toList)] := by
    rw [NodeTable.texts, hwalk]
    decide
  have hrules : ∀ id ∈ pathPairGraph.walk 1, PolicyTable.empty.rule? (pathPairGraph.kind id) = none :=
    fun _ _ => rfl
  have hliterals : ∀ id ∈ pathPairGraph.walk 1, ∀ l, pathPairGraph.literal? id = some l →
      pathPairGraph.reachedFrom 1 id = [] ∧ ∃ w, l = .text w := by
    rw [hwalk]
    intro id hid l hl
    simp only [List.mem_cons, List.not_mem_nil, or_false] at hid
    rcases hid with rfl | rfl | rfl | rfl
    · cases hl
    · cases hl
    · exact ⟨NodeTable.reachedFrom_eq_nil rfl, _, (Option.some.inj hl).symm⟩
    · exact ⟨NodeTable.reachedFrom_eq_nil rfl, _, (Option.some.inj hl).symm⟩
  obtain ⟨runs, hruns, hgiven, hleast⟩ :=
    (marking_is_leftmost hsource hbrackets hrules hliterals).2 pathPairRanges hmark
  rw [htexts] at hruns hgiven hleast
  obtain rfl : runs = [⟨0, 0⟩, ⟨3, 5⟩] := by
    obtain ⟨run, rest, hrun, hrest, rfl⟩ := List.forall₂_cons_left_iff.1 hgiven
    obtain ⟨run', rest', hrun', hnil, rfl⟩ := List.forall₂_cons_left_iff.1 hrest
    obtain rfl := List.forall₂_nil_left_iff.1 hnil
    obtain ⟨hfirst, hlast, -⟩ := TokenRange.mk.inj (Option.some.inj hrun)
    obtain ⟨hfirst', hlast', -⟩ := TokenRange.mk.inj (Option.some.inj hrun')
    rw [show run = ⟨0, 0⟩ from congrArg₂ Span.mk hfirst.symm hlast.symm,
      show run' = ⟨3, 5⟩ from congrArg₂ Span.mk hfirst'.symm hlast'.symm]
  exact ⟨hsource, hbrackets, htexts, hmark, hruns, hleast⟩

end SourceSpans
