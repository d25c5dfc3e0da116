import Mathlib.Data.List.Sort
import Mathlib.Data.String.Basic
import SourceSpans.Policy.Table
import SourceSpans.Proofs.Sequences

/-!
# What is wrong with a policy table

A table is valid if it has a kind and each of its sequences is `WellPlaced`: there is a pattern in it,
and it passes over tokens only from left to right and between two patterns that stand for tokens.

* **One sequence** (`sequenceIssue?_eq_some_iff`): it has an issue exactly if it is not well placed, and
  the issue is told by whether it is empty.
* **All sequences** (`placed`): the sequences of a table with their places, in the order in which they
  are looked at. These are the sequences that the table holds (`mem_placed_iff`), by kind, then by
  field, then by number (`pairwise_placed`), and the issues are theirs (`issues_eq_filterMap`).
* **Any order of the kinds.** A strictly sorted list is told by its members (`eq_of_pairwise`), and
  `Holds` says nothing about the order in which kinds are stored.
-/

namespace SourceSpans

namespace RuleField

/-- The fields in the order in which a rule declares them. -/
def variants : List RuleField := [.head, .intro, .lead, .trail, .empty]

/-- The place of a field among the fields of a rule. -/
def rank (field : RuleField) : Nat := variants.idxOf field

theorem mem_variants (field : RuleField) : field ∈ variants := by
  cases field <;> decide

theorem pairwise_variants : variants.Pairwise fun a b => a.rank < b.rank := by decide

end RuleField

/-- The sequences in one field of a rule. -/
def Rule.alternatives (r : Rule) : RuleField → List PatternSequence
  | .head => r.head
  | .intro => r.intro
  | .lead => r.lead
  | .trail => r.trail
  | .empty => r.empty

theorem Rule.sequences_eq (r : Rule) :
    r.sequences = RuleField.variants.flatMap fun field => (r.alternatives field).map (field, ·) := by
  simp [Rule.sequences, RuleField.variants, Rule.alternatives]

/-! ### One sequence -/

/-- What a sequence has to be so that it may stand in a field. -/
structure WellPlaced (field : RuleField) (ps : PatternSequence) : Prop where
  ne_nil : ps ≠ []
  /-- Tokens are passed over only where patterns are matched from left to right. -/
  field_of_mem : Pattern.skip ∈ ps → field = .head ∨ field = .intro ∨ field = .empty
  not_first : ps.head? ≠ some .skip
  not_last : ps.getLast? ≠ some .skip
  not_twice : ¬ [Pattern.skip, .skip] <:+: ps

namespace PolicyTable

variable {t t' : PolicyTable} {kind : String} {field : RuleField} {ps : PatternSequence}

theorem hasDoubleSkip_eq_true_iff : hasDoubleSkip ps = true ↔ [Pattern.skip, .skip] <:+: ps := by
  fun_induction hasDoubleSkip ps with
  | case1 rest =>
    have hstart : [Pattern.skip, .skip] <+: .skip :: .skip :: rest := ⟨rest, rfl⟩
    exact iff_of_true rfl hstart.isInfix
  | case2 p rest hnot ih =>
    -- two skips do not start here, so they stand in the rest
    have hstart : ¬ [Pattern.skip, .skip] <+: p :: rest := by
      rintro ⟨after, hafter⟩
      obtain ⟨rfl, rfl⟩ := List.cons.inj hafter
      exact hnot after rfl rfl
    rw [ih, List.infix_cons_iff]
    simp only [hstart, false_or]
  | case3 => simp

theorem isForward_eq_true_iff :
    field.isForward = true ↔ field = .head ∨ field = .intro ∨ field = .empty := by
  cases field <;> decide

theorem isMisplaced_eq_false_iff :
    isMisplaced field ps = false ↔
      (Pattern.skip ∈ ps → field = .head ∨ field = .intro ∨ field = .empty) ∧
        ps.head? ≠ some .skip ∧ ps.getLast? ≠ some .skip ∧ ¬ [Pattern.skip, .skip] <:+: ps := by
  rw [← isForward_eq_true_iff, ← hasDoubleSkip_eq_true_iff]
  by_cases hmem : Pattern.skip ∈ ps
  · simp [isMisplaced, hmem, and_assoc]
  · -- without a skip there is none at either end and none beside another
    have hfirst : ps.head? ≠ some .skip := fun h => hmem (List.mem_of_mem_head? h)
    have hlast : ps.getLast? ≠ some .skip := fun h => hmem (List.mem_of_getLast? h)
    have htwice : ¬ hasDoubleSkip ps = true := by
      intro h
      exact hmem ((hasDoubleSkip_eq_true_iff.1 h).subset List.mem_cons_self)
    simp [isMisplaced, hmem, hfirst, hlast, htwice]

theorem sequenceIssue?_eq_none_iff :
    sequenceIssue? kind field ps = none ↔ WellPlaced field ps := by
  have hiff : sequenceIssue? kind field ps = none ↔ ps ≠ [] ∧ isMisplaced field ps = false := by
    unfold sequenceIssue?
    split_ifs with hempty hmis
    · simp_all
    · simp [hmis]
    · simp_all
  rw [hiff, isMisplaced_eq_false_iff]
  constructor
  · rintro ⟨hne, hfield, hfirst, hlast, htwice⟩
    exact ⟨hne, hfield, hfirst, hlast, htwice⟩
  · rintro ⟨hne, hfield, hfirst, hlast, htwice⟩
    exact ⟨hne, hfield, hfirst, hlast, htwice⟩

end PolicyTable

/-! ### All sequences -/

/-- A sequence at its place in a table. -/
structure PlacedSequence where
  kind : String
  field : RuleField
  /-- The place among the alternatives in the field. -/
  number : Nat
  sequence : PatternSequence

namespace PlacedSequence

/-- The order of places: by kind, then by field, then by number. -/
def Before (p q : PlacedSequence) : Prop :=
  p.kind < q.kind ∨ p.kind = q.kind ∧
    (p.field.rank < q.field.rank ∨ p.field = q.field ∧ p.number < q.number)

theorem Before.asymm {p q : PlacedSequence} (h : p.Before q) : ¬ q.Before p := by
  rcases h with hpq | ⟨heq, hpq⟩
  · rintro (hqp | ⟨heq, -⟩)
    · exact lt_asymm hpq hqp
    · exact hpq.ne heq.symm
  · rintro (hqp | ⟨-, hqp⟩)
    · exact hqp.ne heq.symm
    · rcases hpq with hpq | ⟨hfield, hpq⟩ <;> rcases hqp with hqp | ⟨hfield', hqp⟩
      · omega
      · rw [hfield'] at hpq
        omega
      · rw [hfield] at hqp
        omega
      · omega

/-- What is to be said of a sequence that is not well placed. -/
def issue (p : PlacedSequence) : PolicyIssue :=
  if p.sequence = [] then .emptySequence p.kind p.field else .misplacedSkip p.kind p.field

/-- The sequence may stand where it stands. -/
def Fits (p : PlacedSequence) : Prop := WellPlaced p.field p.sequence

theorem sequenceIssue?_eq_some_iff {p : PlacedSequence} {i : PolicyIssue} :
    PolicyTable.sequenceIssue? p.kind p.field p.sequence = some i ↔ ¬ p.Fits ∧ i = p.issue := by
  unfold Fits
  have hnone := @PolicyTable.sequenceIssue?_eq_none_iff p.kind p.field p.sequence
  rw [← hnone]
  unfold PolicyTable.sequenceIssue? issue
  rw [eq_comm (a := i)]
  by_cases hempty : p.sequence = []
  · simp [hempty]
  · by_cases hmis : PolicyTable.isMisplaced p.field p.sequence = true
    · simp [hempty, hmis]
    · simp [hempty, hmis]

end PlacedSequence

namespace PolicyTable

variable {t t' : PolicyTable} {p : PlacedSequence}

/-- The sequence stands in the table at its place, wherever the rule for its kind is stored. -/
def Holds (t : PolicyTable) (p : PlacedSequence) : Prop :=
  ∃ r, (p.kind, r) ∈ t.kinds ∧ (r.alternatives p.field)[p.number]? = some p.sequence

/-- The sequences in one field of the rule for a kind. -/
def placedIn (kind : String) (r : Rule) (field : RuleField) : List PlacedSequence :=
  (r.alternatives field).zipIdx.map fun s => ⟨kind, field, s.2, s.1⟩

/-- The sequences of a table by kind, then by field, then by number. -/
def placed (t : PolicyTable) : List PlacedSequence :=
  t.sortedKinds.flatMap fun k => RuleField.variants.flatMap fun field => placedIn k.1 k.2 field

theorem mem_placedIn_iff {kind : String} {r : Rule} {field : RuleField} :
    p ∈ placedIn kind r field ↔
      p.kind = kind ∧ p.field = field ∧ (r.alternatives field)[p.number]? = some p.sequence := by
  unfold placedIn
  constructor
  · intro h
    obtain ⟨⟨ps, number⟩, hmem, rfl⟩ := List.mem_map.1 h
    exact ⟨rfl, rfl, List.mk_mem_zipIdx_iff_getElem?.1 hmem⟩
  · rintro ⟨rfl, rfl, hget⟩
    exact List.mem_map.2 ⟨(p.sequence, p.number), List.mk_mem_zipIdx_iff_getElem?.2 hget, rfl⟩

theorem mem_sortedKinds_iff {k : String × Rule} : k ∈ t.sortedKinds ↔ k ∈ t.kinds := by
  unfold sortedKinds
  exact List.mem_mergeSort

theorem mem_placed_iff : p ∈ t.placed ↔ t.Holds p := by
  unfold placed Holds
  simp only [List.mem_flatMap, mem_placedIn_iff, mem_sortedKinds_iff, Prod.exists]
  constructor
  · rintro ⟨kind, r, hmem, field, -, rfl, rfl, hget⟩
    exact ⟨r, hmem, hget⟩
  · rintro ⟨r, hmem, hget⟩
    exact ⟨p.kind, r, hmem, p.field, p.field.mem_variants, rfl, rfl, hget⟩

/-- Kinds that have different names are sorted without ties. -/
theorem pairwise_sortedKinds (h : (t.kinds.map Prod.fst).Nodup) :
    t.sortedKinds.Pairwise fun a b => a.1 < b.1 := by
  have hle : t.sortedKinds.Pairwise fun a b => a.1 ≤ b.1 := by
    have hsorted : t.sortedKinds.Pairwise fun a b => decide (a.1 ≤ b.1) = true := by
      apply List.pairwise_mergeSort
      · intro a b c hab hbc
        simp only [decide_eq_true_eq] at hab hbc ⊢
        exact hab.trans hbc
      · intro a b
        simpa using le_total a.1 b.1
    exact hsorted.imp fun hab => of_decide_eq_true hab
  have hne : t.sortedKinds.Pairwise fun a b => a.1 ≠ b.1 := by
    have hperm := (List.mergeSort_perm t.kinds fun a b => a.1 ≤ b.1).map Prod.fst
    exact List.pairwise_map.1 (hperm.nodup_iff.2 h)
  exact (hle.and hne).imp fun hab => lt_of_le_of_ne hab.1 hab.2

theorem pairwise_placedIn (kind : String) (r : Rule) (field : RuleField) :
    (placedIn kind r field).Pairwise PlacedSequence.Before := by
  unfold placedIn
  rw [List.pairwise_map]
  have hnumbers : (r.alternatives field).zipIdx.Pairwise fun a b => a.2 < b.2 := by
    have hrange := List.pairwise_lt_range' (s := 0) (n := (r.alternatives field).length)
    rw [← List.zipIdx_map_snd] at hrange
    exact List.pairwise_map.1 hrange
  exact hnumbers.imp fun hab => Or.inr ⟨rfl, Or.inr ⟨rfl, hab⟩⟩

theorem pairwise_placed (h : (t.kinds.map Prod.fst).Nodup) :
    t.placed.Pairwise PlacedSequence.Before := by
  unfold placed
  rw [List.pairwise_flatMap]
  constructor
  · -- the sequences of one kind, field by field
    intro k _
    rw [List.pairwise_flatMap]
    refine ⟨fun field _ => pairwise_placedIn k.1 k.2 field, ?_⟩
    refine RuleField.pairwise_variants.imp ?_
    intro a b hab p hp q hq
    obtain ⟨hpkind, rfl, -⟩ := mem_placedIn_iff.1 hp
    obtain ⟨hqkind, rfl, -⟩ := mem_placedIn_iff.1 hq
    exact Or.inr ⟨hpkind.trans hqkind.symm, Or.inl hab⟩
  · -- the sequences of two kinds
    refine (pairwise_sortedKinds h).imp ?_
    intro a b hab p hp q hq
    obtain ⟨fp, -, hp⟩ := List.mem_flatMap.1 hp
    obtain ⟨fq, -, hq⟩ := List.mem_flatMap.1 hq
    rw [← (mem_placedIn_iff.1 hp).1, ← (mem_placedIn_iff.1 hq).1] at hab
    exact Or.inl hab

theorem ruleIssues_eq_filterMap (kind : String) (r : Rule) :
    ruleIssues kind r = (RuleField.variants.flatMap fun field => placedIn kind r field).filterMap
      fun p => sequenceIssue? p.kind p.field p.sequence := by
  unfold ruleIssues placedIn
  rw [Rule.sequences_eq, List.filterMap_flatMap, List.filterMap_flatMap]
  congr 1
  funext field
  -- the numbers of the sequences play no part in their issues
  rw [List.filterMap_map, List.filterMap_map]
  conv_lhs => rw [← List.zipIdx_map_fst (l := r.alternatives field) (i := 0), List.filterMap_map]
  rfl

theorem issues_eq_filterMap (h : t.kinds ≠ []) :
    t.issues = t.placed.filterMap fun p => sequenceIssue? p.kind p.field p.sequence := by
  unfold issues placed
  rw [if_neg (by simpa using h), List.filterMap_flatMap]
  congr 1
  funext k
  exact ruleIssues_eq_filterMap k.1 k.2

/-- The sequences of a table that are not well placed, in the order of their places. -/
def offenders (t : PolicyTable) : List PlacedSequence :=
  t.placed.filter fun p => (sequenceIssue? p.kind p.field p.sequence).isSome

theorem mem_offenders_iff : p ∈ t.offenders ↔ t.Holds p ∧ ¬ p.Fits := by
  unfold offenders
  rw [List.mem_filter, mem_placed_iff, Option.isSome_iff_exists]
  simp only [PlacedSequence.sequenceIssue?_eq_some_iff, exists_and_left, exists_eq, and_true]

theorem pairwise_offenders (h : (t.kinds.map Prod.fst).Nodup) :
    t.offenders.Pairwise PlacedSequence.Before :=
  (pairwise_placed h).filter _

theorem issues_eq_map (h : t.kinds ≠ []) : t.issues = t.offenders.map PlacedSequence.issue := by
  rw [issues_eq_filterMap h, ← List.filterMap_eq_map', offenders, List.filterMap_filter]
  congr 1
  funext p
  rcases hissue : sequenceIssue? p.kind p.field p.sequence with _ | i
  · rfl
  · obtain ⟨-, rfl⟩ := PlacedSequence.sequenceIssue?_eq_some_iff.1 hissue
    rfl

/-! ### Any order of the kinds -/

theorem Holds.of_perm (h : t.kinds.Perm t'.kinds) (hp : t.Holds p) : t'.Holds p := by
  obtain ⟨r, hmem, hget⟩ := hp
  exact ⟨r, h.subset hmem, hget⟩

theorem holds_perm (h : t.kinds.Perm t'.kinds) : t.Holds p ↔ t'.Holds p :=
  ⟨Holds.of_perm h, Holds.of_perm h.symm⟩

/-- A list of sequences is the list of offenders if it is sorted and has the same members. -/
theorem eq_offenders {l : List PlacedSequence} (hkinds : (t.kinds.map Prod.fst).Nodup)
    (hl : l.Pairwise PlacedSequence.Before) (hmem : ∀ p, p ∈ l ↔ t.Holds p ∧ ¬ p.Fits) :
    l = t.offenders := by
  refine eq_of_pairwise (fun _ _ => PlacedSequence.Before.asymm) hl (pairwise_offenders hkinds) ?_
  intro p
  rw [hmem, mem_offenders_iff]

theorem issues_perm (hkinds : (t.kinds.map Prod.fst).Nodup) (h : t.kinds.Perm t'.kinds) :
    t.issues = t'.issues := by
  by_cases hempty : t.kinds = []
  · have hempty' : t'.kinds = [] := (hempty ▸ h).nil_eq.symm
    simp [issues, hempty, hempty']
  · have hempty' : t'.kinds ≠ [] := by
      intro hnil
      exact hempty (hnil ▸ h).eq_nil
    have hkinds' : (t'.kinds.map Prod.fst).Nodup := (h.map Prod.fst).nodup_iff.1 hkinds
    have hoffenders : t.offenders = t'.offenders := by
      refine eq_offenders hkinds' (pairwise_offenders hkinds) ?_
      intro p
      rw [mem_offenders_iff, holds_perm h]
    rw [issues_eq_map hempty, issues_eq_map hempty', hoffenders]

/-! ### The check -/

theorem validate_eq_ok_iff : t.validate = .ok t ↔ t.issues = [] := by
  unfold validate
  split_ifs with h <;> simp_all

theorem validate_eq_error_iff {issues : List PolicyIssue} :
    t.validate = .error issues ↔ t.issues ≠ [] ∧ issues = t.issues := by
  unfold validate
  rw [eq_comm (a := issues)]
  split_ifs with h <;> simp_all

/-- The table has a kind and each of its sequences may stand where it stands. -/
def IsValid (t : PolicyTable) : Prop := t.kinds ≠ [] ∧ ∀ p, t.Holds p → p.Fits

/-- There is one issue for each sequence that may not stand where it stands, in the order of their
places, or the one issue that there is no kind. -/
def IsReport (t : PolicyTable) (issues : List PolicyIssue) : Prop :=
  (t.kinds = [] ∧ issues = [.emptyTable]) ∨
    t.kinds ≠ [] ∧ ∃ bad : List PlacedSequence, bad ≠ [] ∧ bad.Pairwise PlacedSequence.Before ∧
      (∀ p, p ∈ bad ↔ t.Holds p ∧ ¬ p.Fits) ∧ issues = bad.map PlacedSequence.issue

theorem issues_eq_nil_iff : t.issues = [] ↔ t.IsValid := by
  unfold IsValid
  by_cases hempty : t.kinds = []
  · simp [issues, hempty]
  · rw [issues_eq_map hempty, List.map_eq_nil_iff, List.eq_nil_iff_forall_not_mem]
    simp only [mem_offenders_iff, not_and, not_not, ne_eq, hempty, not_false_eq_true, true_and]

theorem isReport_iff (hkinds : (t.kinds.map Prod.fst).Nodup) {issues : List PolicyIssue} :
    t.IsReport issues ↔ t.issues ≠ [] ∧ issues = t.issues := by
  unfold IsReport
  by_cases hempty : t.kinds = []
  · simp [PolicyTable.issues, hempty]
  · simp only [hempty, false_and, false_or, ne_eq, not_false_eq_true, true_and]
    rw [issues_eq_map hempty]
    constructor
    · rintro ⟨bad, hne, hbad, hmem, rfl⟩
      rw [← eq_offenders hkinds hbad hmem]
      exact ⟨by simpa using hne, rfl⟩
    · rintro ⟨hne, rfl⟩
      refine ⟨t.offenders, by simpa using hne, pairwise_offenders hkinds, ?_, rfl⟩
      intro p
      exact mem_offenders_iff

/-- **Validation is exact.** A table whose kinds have different names is accepted exactly if it has a
kind and each of its sequences is well placed. Otherwise there is one issue for each sequence that is
not, by kind, by field and by number, or the issue that there is no kind. None of this depends on the
order in which the kinds are stored. -/
theorem validate_exact (t : PolicyTable) (hkinds : (t.kinds.map Prod.fst).Nodup) :
    (t.validate = .ok t ↔ t.IsValid) ∧
      (∀ issues, t.validate = .error issues ↔ t.IsReport issues) ∧
      ∀ t' : PolicyTable, t.kinds.Perm t'.kinds →
        (t.validate = .ok t ↔ t'.validate = .ok t') ∧
          ∀ issues, t.validate = .error issues ↔ t'.validate = .error issues := by
  refine ⟨?_, ?_, ?_⟩
  · rw [validate_eq_ok_iff]
    exact issues_eq_nil_iff
  · intro issues
    rw [validate_eq_error_iff, isReport_iff hkinds]
  · intro t' h
    have hissues : t.issues = t'.issues := issues_perm hkinds h
    refine ⟨?_, ?_⟩
    · rw [validate_eq_ok_iff, validate_eq_ok_iff, hissues]
    · intro issues
      rw [validate_eq_error_iff, validate_eq_error_iff, hissues]

/-- A table with an empty sequence and one that starts by passing over tokens, the kinds backwards. -/
def backwardTable : PolicyTable :=
  ⟨"", none, [("Tuple", { lead := [[.token "("], [.skip, .token ")"]] }), ("Call", { head := [[]] })]⟩

theorem backwardTable_report :
    (backwardTable.kinds.map Prod.fst).Nodup ∧
      backwardTable.IsReport [.emptySequence "Call" .head, .misplacedSkip "Tuple" .lead] ∧
      PolicyTable.validate { backwardTable with kinds := backwardTable.kinds.reverse } =
        .error [.emptySequence "Call" .head, .misplacedSkip "Tuple" .lead] := by
  have hkinds : (backwardTable.kinds.map Prod.fst).Nodup := by decide
  have hvalidate : backwardTable.validate =
      .error [.emptySequence "Call" .head, .misplacedSkip "Tuple" .lead] := by
    simp [backwardTable, validate, issues, sortedKinds, List.mergeSort]
    decide
  obtain ⟨-, hreport, hperm⟩ := validate_exact backwardTable hkinds
  refine ⟨hkinds, (hreport _).1 hvalidate, ?_⟩
  exact ((hperm _ (List.reverse_perm _).symm).2 _).1 hvalidate

end PolicyTable

end SourceSpans
