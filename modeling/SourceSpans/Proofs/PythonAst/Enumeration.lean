import Mathlib.Data.List.Forall2
import Mathlib.Data.List.Perm.Basic
import SourceSpans.PythonAst.Basic

/-!
# Entries and parameters in turn

A mapping keeps its keys and its values in two lists, and a parameter list its parameters and their
defaults. Their nodes are listed as they stand in the source (`AstNode.fields_enumerate`): a key before its
value, and a parameter before its default.

* **Two lists in turn** (`Alternates`): the items of two lists of one length are put in turn by index. No
  item is lost, and none is repeated (`inTurn_perm`).
* **One law for all of them**: entries, positional parameters and keyword parameters are the nodes among two
  lists of values in turn (`AstNode.entries_eq`, `AstNode.withDefaults_eq`,
  `AstNode.withKeywordDefaults_eq`). A value that is no node leaves a gap in its list, so that those after
  it stay where they belong. Positional parameters without a default come first; what stands for their
  defaults are as many nulls.
-/

namespace SourceSpans

/-! ### Two lists in turn -/

section inTurn

variable {α : Type} {as bs as' bs' : List α}

/-- A list has the items of two lists in turn: directly after an item of the first list stands the item of
the second one at the same index. -/
structure Alternates (as bs l : List α) : Prop where
  left : ∀ i, l[2 * i]? = as[i]?
  right : ∀ i, l[2 * i + 1]? = bs[i]?

/-- The items of two lists in turn, while both have any. -/
def inTurn : (as bs : List α) → List α
  | a :: as, b :: bs => a :: b :: inTurn as bs
  | _, _ => []

theorem alternates_inTurn (h : as.length = bs.length) : Alternates as bs (inTurn as bs) := by
  induction as generalizing bs with
  | nil =>
    obtain rfl := List.eq_nil_of_length_eq_zero h.symm
    exact ⟨fun i => rfl, fun i => rfl⟩
  | cons a as ih =>
    rcases bs with _ | ⟨b, bs⟩
    · cases h
    have ih := ih (Nat.succ.inj h)
    refine ⟨fun i => ?_, fun i => ?_⟩
    · rcases i with _ | i
      · rfl
      · exact ih.left i
    · rcases i with _ | i
      · rfl
      · exact ih.right i

theorem inTurn_append (h : as.length = bs.length) :
    inTurn (as ++ as') (bs ++ bs') = inTurn as bs ++ inTurn as' bs' := by
  induction as generalizing bs with
  | nil =>
    obtain rfl := List.eq_nil_of_length_eq_zero h.symm
    rfl
  | cons a as ih =>
    rcases bs with _ | ⟨b, bs⟩
    · cases h
    · exact congrArg (fun l => a :: b :: l) (ih (Nat.succ.inj h))

/-- Two lists in turn have the items of both. -/
theorem inTurn_perm (h : as.length = bs.length) : (inTurn as bs).Perm (as ++ bs) := by
  induction as generalizing bs with
  | nil =>
    obtain rfl := List.eq_nil_of_length_eq_zero h.symm
    exact .refl _
  | cons a as ih =>
    rcases bs with _ | ⟨b, bs⟩
    · cases h
    · have hmoved : (b :: (as ++ bs)).Perm (as ++ b :: bs) := List.perm_middle.symm
      exact (((ih (Nat.succ.inj h)).cons b).trans hmoved).cons a

end inTurn

namespace AstNode

/-! ### Nodes in turn -/

/-- Values that are nodes, and the nodes that they are. -/
def AreNodes : List Json → List AstNode → Prop :=
  List.Forall₂ fun v n => ofJson? v = some n

theorem areNodes_filterMap {vs : List Json} (h : ∀ v ∈ vs, (ofJson? v).isSome) :
    AreNodes vs (vs.filterMap ofJson?) := by
  induction vs with
  | nil => exact .nil
  | cons v vs ih =>
    obtain ⟨n, hn⟩ := Option.isSome_iff_exists.1 (h v List.mem_cons_self)
    rw [List.filterMap_cons_some hn]
    exact .cons hn (ih fun u hu => h u (List.mem_cons_of_mem v hu))

theorem entries_eq (keys values : List Json) :
    entries keys values = (inTurn keys values).filterMap ofJson? := by
  induction keys generalizing values with
  | nil => rfl
  | cons key keys ih =>
    rcases values with _ | ⟨value, values⟩
    · rfl
    · rw [entries, inTurn, ih, List.filterMap_cons, List.filterMap_cons]
      rcases ofJson? key with _ | k <;> rcases ofJson? value with _ | v <;> rfl

variable {ps ds : List Json} {params defaults : List AstNode}

/-- Parameters stay as they are if nulls stand for their defaults. -/
theorem filterMap_inTurn_replicate (hparams : AreNodes ps params) :
    (inTurn ps (List.replicate ps.length .null)).filterMap ofJson? = params := by
  induction hparams with
  | nil => rfl
  | @cons p param ps params hp _ ih =>
    rw [List.length_cons, List.replicate_succ, inTurn, List.filterMap_cons_some hp,
      List.filterMap_cons_none rfl, ih]

theorem alternate_eq (hparams : AreNodes ps params) (hdefaults : AreNodes ds defaults)
    (h : ps.length = ds.length) : alternate params defaults = (inTurn ps ds).filterMap ofJson? := by
  induction hparams generalizing ds defaults with
  | nil =>
    obtain rfl := List.eq_nil_of_length_eq_zero h.symm
    cases hdefaults
    rfl
  | @cons p param ps params hp _ ih =>
    cases hdefaults with
    | nil => cases h
    | @cons d default ds defaults hd hdefaults =>
      rw [alternate, inTurn, List.filterMap_cons_some hp, List.filterMap_cons_some hd,
        ih hdefaults (Nat.succ.inj h)]

/-- Positional parameters and their defaults are listed in turn, with nulls for the parameters that have no
default. -/
theorem withDefaults_eq {bare : Nat} (hparams : AreNodes ps params)
    (hdefaults : AreNodes ds defaults) (h : ps.length = bare + ds.length) :
    withDefaults params defaults =
      (inTurn ps (List.replicate bare .null ++ ds)).filterMap ofJson? := by
  have hbare : params.length - defaults.length = bare := by
    rw [← hparams.length_eq, ← hdefaults.length_eq, h, Nat.add_sub_cancel_right]
  have htake : (ps.take bare).length = bare := by
    rw [List.length_take]
    omega
  have hdrop : (ps.drop bare).length = ds.length := by
    rw [List.length_drop]
    omega
  have hsplit : inTurn ps (List.replicate bare .null ++ ds) =
      inTurn (ps.take bare) (List.replicate bare .null) ++ inTurn (ps.drop bare) ds := by
    rw [← inTurn_append (by rw [htake, List.length_replicate]), List.take_append_drop]
  have hfirst := filterMap_inTurn_replicate (List.forall₂_take bare hparams)
  rw [htake] at hfirst
  rw [withDefaults, hbare, alternate_eq (List.forall₂_drop bare hparams) hdefaults hdrop, hsplit,
    List.filterMap_append, hfirst]

/-- Keyword parameters and the values at their indices are listed in turn. -/
theorem withKeywordDefaults_eq (hparams : AreNodes ps params) (h : ps.length = ds.length) :
    withKeywordDefaults params ds = (inTurn ps ds).filterMap ofJson? := by
  induction hparams generalizing ds with
  | nil => rfl
  | @cons p param ps params hp _ ih =>
    rcases ds with _ | ⟨d, ds⟩
    · cases h
    · rw [withKeywordDefaults, inTurn, List.filterMap_cons_some hp, List.filterMap_cons,
        ih (Nat.succ.inj h)]
      rcases ofJson? d with _ | default <;> rfl

/-! ### Parameter lists and mappings -/

/-- The values of the positional parameters. -/
def positional (n : AstNode) : List Json := n.items "posonlyargs" ++ n.items "args"

/-- The defaults of the positional parameters, aligned on the right: nulls come first, for the parameters
that have none. -/
def alignedDefaults (n : AstNode) : List Json :=
  List.replicate (n.positional.length - (n.items "defaults").length) .null ++ n.items "defaults"

/-- A parameter list: parameters and defaults are nodes, there are no more defaults than positional
parameters, and there is one value for each keyword parameter, which need not be a node. -/
structure IsParameterList (n : AstNode) : Prop where
  kind_eq : n.kind = "arguments"
  isSome : ∀ name ∈ ["posonlyargs", "args", "defaults", "kwonlyargs"], ∀ v ∈ n.items name,
    (ofJson? v).isSome
  defaults_le : (n.items "defaults").length ≤ n.positional.length
  kwDefaults_eq : (n.items "kwonlyargs").length = (n.items "kw_defaults").length

namespace IsParameterList

variable {n : AstNode}

theorem length_alignedDefaults (h : n.IsParameterList) :
    n.positional.length = n.alignedDefaults.length := by
  have hle := h.defaults_le
  rw [alignedDefaults, List.length_append, List.length_replicate]
  omega

theorem parameters_eq (h : n.IsParameterList) :
    n.parameters = (inTurn n.positional n.alignedDefaults).filterMap ofJson? ++
      (n.node? "vararg").toList ++
      (inTurn (n.items "kwonlyargs") (n.items "kw_defaults")).filterMap ofJson? ++
      (n.node? "kwarg").toList := by
  have hnodes : ∀ name ∈ ["posonlyargs", "args", "defaults", "kwonlyargs"],
      AreNodes (n.items name) (n.nodes name) := fun name hname =>
    areNodes_filterMap (h.isSome name hname)
  have hpositional : AreNodes n.positional (n.nodes "posonlyargs" ++ n.nodes "args") :=
    List.rel_append (hnodes "posonlyargs" (by decide)) (hnodes "args" (by decide))
  have hlength := (Nat.sub_add_cancel h.defaults_le).symm
  rw [parameters, withDefaults_eq hpositional (hnodes "defaults" (by decide)) hlength,
    withKeywordDefaults_eq (hnodes "kwonlyargs" (by decide)) h.kwDefaults_eq]
  rfl

/-- No node is lost, and none is repeated. -/
theorem parameters_perm (h : n.IsParameterList) :
    n.parameters.Perm (n.nodes "posonlyargs" ++ n.nodes "args" ++ n.nodes "defaults" ++
      (n.node? "vararg").toList ++ (n.nodes "kwonlyargs" ++ n.nodes "kw_defaults") ++
      (n.node? "kwarg").toList) := by
  have hpositional := (inTurn_perm h.length_alignedDefaults).filterMap ofJson?
  have hkeyword := (inTurn_perm h.kwDefaults_eq).filterMap ofJson?
  have hnulls : ∀ count, (List.replicate count Json.null).filterMap ofJson? = [] := by
    intro count
    rw [List.filterMap_eq_nil_iff]
    intro v hv
    rw [List.eq_of_mem_replicate hv]
    rfl
  rw [positional, alignedDefaults, List.filterMap_append, List.filterMap_append, List.filterMap_append,
    hnulls, List.nil_append] at hpositional
  rw [List.filterMap_append] at hkeyword
  rw [h.parameters_eq]
  exact ((hpositional.append_right _).append hkeyword).append_right _

end IsParameterList

theorem fields_of_arguments {n : AstNode} (h : n.kind = "arguments") :
    n.fields = [("parameters", .nodes n.parameters)] := by
  simp [fields, h, opaqueKinds]

/-- The classes of mappings, each with the member that has the values. -/
def mappings : List (String × String) := [("Dict", "values"), ("MatchMapping", "patterns")]

theorem fields_of_mapping {n : AstNode} {kind values : String} (h : (kind, values) ∈ mappings)
    (hkind : n.kind = kind) :
    n.fields = [("items", .nodes (entries (n.items "keys") (n.items values)))] := by
  simp only [mappings, List.mem_cons, Prod.mk.injEq, List.not_mem_nil, or_false] at h
  rcases h with ⟨rfl, rfl⟩ | ⟨rfl, rfl⟩ <;> simp [fields, hkind, opaqueKinds]

/-- **Parameters and entries are listed without loss and without repetition.** A parameter list has one field.
In it stand the positional parameters, each with its default directly after it, then the parameter for the
other positional arguments, then the keyword parameters, each with its default directly after it if it has
one, and then the parameter for the other keywords: all nodes of these members, and each once. The defaults
belong to the last positional parameters. A mapping has one field too, in which the key and the value at each
index stand in turn, without those that are no nodes. -/
theorem fields_enumerate (n : AstNode) :
    (n.IsParameterList → ∃ positional keyword order,
      Alternates n.positional n.alignedDefaults positional ∧
      Alternates (n.items "kwonlyargs") (n.items "kw_defaults") keyword ∧
      order = positional.filterMap ofJson? ++ (n.node? "vararg").toList ++
        keyword.filterMap ofJson? ++ (n.node? "kwarg").toList ∧
      n.fields = [("parameters", .nodes order)] ∧
      order.Perm (n.nodes "posonlyargs" ++ n.nodes "args" ++ n.nodes "defaults" ++
        (n.node? "vararg").toList ++ (n.nodes "kwonlyargs" ++ n.nodes "kw_defaults") ++
        (n.node? "kwarg").toList)) ∧
    ∀ kind values, (kind, values) ∈ mappings → n.kind = kind →
      (n.items "keys").length = (n.items values).length →
      ∃ slots, Alternates (n.items "keys") (n.items values) slots ∧
        n.fields = [("items", .nodes (slots.filterMap ofJson?))] := by
  refine ⟨fun h => ?_, fun kind values hkind heq hlength => ?_⟩
  · exact ⟨_, _, n.parameters, alternates_inTurn h.length_alignedDefaults,
      alternates_inTurn h.kwDefaults_eq, h.parameters_eq, fields_of_arguments h.kind_eq,
      h.parameters_perm⟩
  · rw [fields_of_mapping hkind heq, entries_eq]
    exact ⟨_, alternates_inTurn hlength, rfl⟩

/-- The parameters `a, b=2, *rest, c, d=3, **kw`, numbered as they stand. -/
def starParameters : AstNode where
  id := 0
  members := [
    ("_type", .string "arguments"),
    ("posonlyargs", .array []),
    ("args", .array [.object 1 [("_type", .string "arg")], .object 2 [("_type", .string "arg")]]),
    ("vararg", .object 4 [("_type", .string "arg")]),
    ("kwonlyargs", .array [.object 5 [("_type", .string "arg")], .object 6 [("_type", .string "arg")]]),
    ("kw_defaults", .array [.null, .object 7 [("_type", .string "Constant")]]),
    ("kwarg", .object 8 [("_type", .string "arg")]),
    ("defaults", .array [.object 3 [("_type", .string "Constant")]])]

/-- The parameters in the order in which they are listed. -/
def starOrder : List AstNode :=
  [⟨1, [("_type", .string "arg")]⟩, ⟨2, [("_type", .string "arg")]⟩,
    ⟨3, [("_type", .string "Constant")]⟩, ⟨4, [("_type", .string "arg")]⟩,
    ⟨5, [("_type", .string "arg")]⟩, ⟨6, [("_type", .string "arg")]⟩,
    ⟨7, [("_type", .string "Constant")]⟩, ⟨8, [("_type", .string "arg")]⟩]

/-- The nodes are listed in the order of their numbers. -/
theorem fields_enumerate_starParameters :
    starParameters.IsParameterList ∧ starParameters.fields = [("parameters", .nodes starOrder)] ∧
      starOrder.Perm (starParameters.nodes "posonlyargs" ++ starParameters.nodes "args" ++
        starParameters.nodes "defaults" ++ (starParameters.node? "vararg").toList ++
        (starParameters.nodes "kwonlyargs" ++ starParameters.nodes "kw_defaults") ++
        (starParameters.node? "kwarg").toList) := by
  have h : starParameters.IsParameterList := ⟨by decide, by decide, by decide, by decide⟩
  have horder : starParameters.fields = [("parameters", .nodes starOrder)] := rfl
  obtain ⟨-, -, order, -, -, -, hfields, hperm⟩ := (fields_enumerate starParameters).1 h
  obtain rfl : starOrder = order := by
    simpa using horder.symm.trans hfields
  exact ⟨h, horder, hperm⟩

end AstNode

end SourceSpans
