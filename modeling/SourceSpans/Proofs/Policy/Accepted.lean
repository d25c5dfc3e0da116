import SourceSpans.Policy.Reading
import SourceSpans.Proofs.Except
import SourceSpans.Proofs.Policy.Validation

/-!
# What an accepted policy table holds

A table that has been read from a document and checked has two properties on which matching relies.

* **Each pattern is written** (`IsWritten`): it is what a text in the document stands for, so a
  token that it admits is a name, an operator, a string or a number (`kind_of_admits`), and never one
  that ends a line. This is kept by each entry that is read.
* **Each sequence is well placed** (`wellPlaced_of_parse`), as the check demands.
-/

namespace SourceSpans

/-! ### Written patterns -/

/-- The pattern is what some text stands for. -/
def Pattern.IsWritten (p : Pattern) : Prop := ∃ t, Pattern.parse t = .ok p

/-- The kinds of tokens that patterns can name. -/
def TokenKind.IsNamable (k : TokenKind) : Prop := k = .name ∨ k = .op ∨ k = .string ∨ k = .number

namespace Pattern

variable {p : Pattern} {t : Token} {v : Toml.Value}

theorem isNamable_of_isWritten {k : TokenKind} (h : (kind k).IsWritten) : k.IsNamable := by
  obtain ⟨s, hs⟩ := h
  unfold parse at hs
  split at hs
  · rename_i name
    split_ifs at hs
    · cases hs
    · split at hs
      · rename_i k' hk
        obtain rfl : k' = k := by simpa using hs
        obtain ⟨before, after, hclasses, -⟩ := List.lookup_eq_some_iff.1 hk
        have hmem : (name, k') ∈ classes := by simp [hclasses]
        simp only [classes, List.mem_cons, Prod.mk.injEq, List.not_mem_nil, or_false] at hmem
        unfold TokenKind.IsNamable
        tauto
      · cases hs
  · split_ifs at hs
    cases hs

/-- A token that a written pattern admits is a name, an operator, a string or a number. -/
theorem kind_of_admits (hp : p.IsWritten) (h : p.admits t = true) : t.kind.IsNamable := by
  cases p with
  | text s =>
    simp only [admits, Bool.and_eq_true, Bool.or_eq_true, beq_iff_eq] at h
    rcases h.1 with h | h
    · exact Or.inr (Or.inl h)
    · exact Or.inl h
  | kind k =>
    obtain rfl : t.kind = k := by simpa [admits] using h
    exact isNamable_of_isWritten hp
  | skip => simp [admits] at h

theorem isWritten_of_ofValue (h : ofValue v = .ok p) : p.IsWritten := by
  unfold ofValue at h
  split at h
  · rename_i s
    refine ⟨s.toList, ?_⟩
    rcases hparse : parse s.toList with e | p'
    · rw [hparse] at h
      cases h
    · rw [hparse] at h
      rw [Except.ok.inj h]
  · cases h

theorem isWritten_of_sequenceOfValue {ps : PatternSequence} (h : sequenceOfValue v = .ok ps)
    (hp : p ∈ ps) : p.IsWritten := by
  unfold sequenceOfValue at h
  split at h
  · obtain ⟨item, -, hitem⟩ := exists_of_mem_mapM h hp
    exact isWritten_of_ofValue hitem
  · cases h

theorem isWritten_of_alternativesOfValue {alternatives : List PatternSequence} {ps : PatternSequence}
    (h : alternativesOfValue v = .ok alternatives) (hps : ps ∈ alternatives) (hp : p ∈ ps) :
    p.IsWritten := by
  unfold alternativesOfValue at h
  split at h
  · obtain ⟨item, -, hitem⟩ := exists_of_mem_mapM h hps
    exact isWritten_of_sequenceOfValue hitem hp
  · cases h

end Pattern

/-! ### Rules and tables -/

namespace Rule

variable {r r' : Rule} {v : Toml.Value}

/-- Each pattern of the rule is written. -/
def IsWritten (r : Rule) : Prop := ∀ field, ∀ ps ∈ r.alternatives field, ∀ p ∈ ps, p.IsWritten

/-- A field that has been read leaves the alternatives of each field as they were, or it is what they
are read from. -/
theorem alternatives_readField {name : String} (h : r.readField name v = .ok r') (field : RuleField) :
    r'.alternatives field = r.alternatives field ∨
      Pattern.alternativesOfValue v = .ok (r'.alternatives field) := by
  unfold readField at h
  split at h
  case h_8 => cases h
  all_goals
    obtain ⟨read, hread, h⟩ := bind_eq_ok h
    obtain rfl := Except.ok.inj h
    cases field <;> first | exact Or.inl rfl | exact Or.inr hread

theorem IsWritten.readField {name : String} (h : r.IsWritten) (hr : r.readField name v = .ok r') :
    r'.IsWritten := by
  intro field ps hps p hp
  rcases alternatives_readField hr field with hsame | hread
  · rw [hsame] at hps
    exact h field ps hps p hp
  · exact Pattern.isWritten_of_alternativesOfValue hread hps hp

theorem isWritten_of_ofValue (h : ofValue v = .ok r) : r.IsWritten := by
  unfold ofValue at h
  split at h
  · refine of_foldlM_eq_ok h ?_ fun field r r' hr hr' => hr.readField hr'
    intro field ps hps
    cases field <;> cases hps
  · cases h

end Rule

namespace PolicyTable

variable {t t' : PolicyTable} {v : Toml.Value}

/-- Each pattern of the table is written. -/
def IsWritten (t : PolicyTable) : Prop := ∀ k ∈ t.kinds, k.2.IsWritten

theorem isWritten_of_kindsOfValue {kinds : List (String × Rule)} {k : String × Rule}
    (h : kindsOfValue v = .ok kinds) (hk : k ∈ kinds) : k.2.IsWritten := by
  unfold kindsOfValue at h
  split at h
  · obtain ⟨entry, -, hentry⟩ := exists_of_mem_mapM h hk
    obtain ⟨r, hr, hentry⟩ := bind_eq_ok hentry
    obtain rfl := Except.ok.inj hentry
    exact Rule.isWritten_of_ofValue hr
  · cases h

theorem kinds_of_readMetaField {name : String} (h : t.readMetaField name v = .ok t') :
    t'.kinds = t.kinds := by
  unfold readMetaField at h
  split at h
  · obtain ⟨s, -, h⟩ := bind_eq_ok h
    obtain rfl := Except.ok.inj h
    rfl
  · obtain ⟨s, -, h⟩ := bind_eq_ok h
    obtain rfl := Except.ok.inj h
    rfl
  · obtain rfl := Except.ok.inj h
    rfl

theorem kinds_of_readMeta (h : t.readMeta v = .ok t') : t'.kinds = t.kinds := by
  unfold readMeta at h
  split at h
  · refine of_foldlM_eq_ok (P := fun u => u.kinds = t.kinds) h rfl ?_
    intro field u u' hu hu'
    exact (kinds_of_readMetaField hu').trans hu
  · cases h

/-- Reading one more entry keeps the patterns written. -/
theorem IsWritten.readEntry {name : String} (h : t.IsWritten) (ht : t.readEntry name v = .ok t') :
    t'.IsWritten := by
  unfold PolicyTable.readEntry at ht
  split at ht
  · intro k hk
    rw [kinds_of_readMeta ht] at hk
    exact h k hk
  · obtain ⟨kinds, hv, ht⟩ := bind_eq_ok ht
    obtain rfl := Except.ok.inj ht
    exact fun k hk => isWritten_of_kindsOfValue hv hk
  · obtain rfl := Except.ok.inj ht
    exact h

theorem isWritten_of_ofEntries {entries : List (String × Toml.Value)} (h : ofEntries entries = .ok t) :
    t.IsWritten := by
  refine of_foldlM_eq_ok h ?_ fun entry t t' ht ht' => ht.readEntry ht'
  intro k hk
  cases hk

/-! ### Accepted tables -/

theorem eq_of_validate_eq_ok (h : t.validate = .ok t') : t = t' := by
  unfold validate at h
  split_ifs at h
  exact Except.ok.inj h

/-- A table is read entry by entry and accepted if nothing is wrong with it. -/
theorem parse_eq_ok_iff {origin : PolicyOrigin} {document : String} :
    parse origin document = .ok t ↔
      ∃ entries, Toml.parse? document = some entries ∧ ofEntries entries = .ok t ∧
        t.validate = .ok t := by
  unfold parse
  constructor
  · intro h
    split at h
    · cases h
    · rename_i entries hentries
      obtain ⟨read, hread, h⟩ := bind_eq_ok h
      have hvalidate := mapError_eq_ok h
      obtain rfl := eq_of_validate_eq_ok hvalidate
      exact ⟨entries, hentries, mapError_eq_ok hread, hvalidate⟩
  · rintro ⟨entries, hentries, hread, hvalidate⟩
    rw [hentries]
    simp only [hread, Except.mapError]
    show (t.validate).mapError _ = _
    rw [hvalidate]
    rfl

/-- Each sequence of an accepted table may stand in its field, and each pattern in it is written. -/
theorem wellPlaced_of_parse {origin : PolicyOrigin} {document : String} {kind : String} {r : Rule}
    {field : RuleField} {ps : PatternSequence} (h : parse origin document = .ok t)
    (hr : (kind, r) ∈ t.kinds) (hps : ps ∈ r.alternatives field) :
    WellPlaced field ps ∧ ∀ p ∈ ps, p.IsWritten := by
  obtain ⟨entries, -, hread, hvalidate⟩ := parse_eq_ok_iff.1 h
  have hwritten : t.IsWritten := isWritten_of_ofEntries hread
  obtain ⟨-, hvalid⟩ := issues_eq_nil_iff.1 (validate_eq_ok_iff.1 hvalidate)
  obtain ⟨number, hnumber⟩ := List.mem_iff_getElem?.1 hps
  exact ⟨hvalid ⟨kind, field, number, ps⟩ ⟨r, hr, hnumber⟩, hwritten (kind, r) hr field ps hps⟩

end PolicyTable

end SourceSpans
