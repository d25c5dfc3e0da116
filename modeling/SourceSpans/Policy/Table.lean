import SourceSpans.Policy.Pattern

/-!
# Policy tables

A policy table says, for each kind of node, which tokens the node owns beyond its children: the
tokens that introduce it, stand around it, or follow it. `PolicyTable.issues` lists what is wrong
with a table, in an order that does not hang on the order of its kinds.
-/

namespace SourceSpans

/-- The pairs of parentheses around a node that it takes as its own. -/
inductive Wrap
  | none
  | once
  | all
  deriving DecidableEq, Repr

/-- How a wrap is written. -/
def Wrap.label : Wrap → String
  | none => "none"
  | once => "once"
  | all => "all"

/-- Every wrap. -/
def Wrap.variants : List Wrap := [.none, .once, .all]

/-- How a kind of node claims tokens that no child covers. Each list holds alternatives, of which
the first that matches counts. -/
structure Rule where
  /-- Tokens that introduce the node, searched for before its children. -/
  head : List PatternSequence := []
  /-- Tokens that are claimed as soon as they come next between two children. -/
  intro : List PatternSequence := []
  /-- Tokens right before the children. -/
  lead : List PatternSequence := []
  /-- Tokens right after the children. -/
  trail : List PatternSequence := []
  /-- The whole node, if it has neither children nor a literal. -/
  empty : List PatternSequence := []
  wrap : Wrap := .none
  /-- Whether `lead` and `trail` may look through parentheses around the node. -/
  reach : Bool := true
  deriving DecidableEq, Repr

/-- The names of the fields of a rule, in their order. -/
def Rule.fieldNames : List String := ["head", "intro", "lead", "trail", "empty", "wrap", "reach"]

/-- The fields of a rule that hold patterns. -/
inductive RuleField
  | head
  | intro
  | lead
  | trail
  | empty
  deriving DecidableEq, Repr

namespace RuleField

/-- How a field is written. -/
def label : RuleField → String
  | head => "head"
  | intro => "intro"
  | lead => "lead"
  | trail => "trail"
  | empty => "empty"

/-- Whether the patterns of a field are matched from left to right, so that tokens may be passed
over. -/
def isForward : RuleField → Bool
  | head | intro | empty => true
  | lead | trail => false

end RuleField

/-- The sequences of a rule with the fields they stand in, in the order of the fields. -/
def Rule.sequences (r : Rule) : List (RuleField × PatternSequence) :=
  r.head.map (.head, ·) ++ r.intro.map (.intro, ·) ++ r.lead.map (.lead, ·)
    ++ r.trail.map (.trail, ·) ++ r.empty.map (.empty, ·)

/-- The rules for the kinds of nodes of a grammar. -/
structure PolicyTable where
  name : String
  description? : Option String
  kinds : List (String × Rule)
  deriving DecidableEq, Repr

/-- What is wrong with a policy table. -/
inductive PolicyIssue
  | emptyTable
  | emptySequence (kind : String) (field : RuleField)
  | misplacedSkip (kind : String) (field : RuleField)
  deriving DecidableEq, Repr

namespace PolicyIssue

/-- What is wrong, in words. -/
def message : PolicyIssue → String
  | emptyTable => "policy table contains no kinds"
  | emptySequence kind field =>
      "kind '" ++ kind ++ "' has an empty pattern in '" ++ field.label ++ "'"
  | misplacedSkip kind field =>
      "kind '" ++ kind ++ "' uses '$*' in '" ++ field.label
        ++ "' without a pattern on both sides"

end PolicyIssue

namespace PolicyTable

/-- No rules at all. -/
def empty : PolicyTable := ⟨"", none, []⟩

/-- The rule for a kind of node. -/
def rule? (t : PolicyTable) (kind : String) : Option Rule := t.kinds.lookup kind

/-- Whether two stretches to be passed over stand next to each other. -/
def hasDoubleSkip : PatternSequence → Bool
  | .skip :: .skip :: _ => true
  | _ :: rest => hasDoubleSkip rest
  | [] => false

/-- Whether a stretch to be passed over lacks a pattern on one of its sides, or stands in a field
that is not matched from left to right. -/
def isMisplaced (field : RuleField) (ps : PatternSequence) : Bool :=
  ps.contains .skip
    && (!field.isForward || ps.head? == some .skip || ps.getLast? == some .skip
      || hasDoubleSkip ps)

/-- What is wrong with a sequence. -/
def sequenceIssue? (kind : String) (field : RuleField) (ps : PatternSequence) :
    Option PolicyIssue :=
  if ps.isEmpty then some (.emptySequence kind field)
  else if isMisplaced field ps then some (.misplacedSkip kind field)
  else none

/-- What is wrong with a rule. -/
def ruleIssues (kind : String) (r : Rule) : List PolicyIssue :=
  r.sequences.filterMap fun s => sequenceIssue? kind s.1 s.2

/-- The kinds by name. -/
def sortedKinds (t : PolicyTable) : List (String × Rule) :=
  t.kinds.mergeSort fun a b => a.1 ≤ b.1

/-- What is wrong with a table: by kind, then by field. -/
def issues (t : PolicyTable) : List PolicyIssue :=
  if t.kinds.isEmpty then [.emptyTable]
  else t.sortedKinds.flatMap fun k => ruleIssues k.1 k.2

/-- Accept a table with which nothing is wrong. -/
def validate (t : PolicyTable) : Except (List PolicyIssue) PolicyTable :=
  if t.issues.isEmpty then .ok t else .error t.issues

end PolicyTable

end SourceSpans
