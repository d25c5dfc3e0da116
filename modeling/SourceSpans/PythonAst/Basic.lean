import SourceSpans.Json.Basic
import SourceSpans.Tree.Basic

/-!
# Python syntax trees in JSON

A node is an object whose member `_type` names its class, with one member for each field of the
class. Fields are read in the order in which they are written, except for the few classes whose
fields are not declared in the order of the source.

Expression contexts and operators have no tokens of their own and are no nodes here; formatted
strings are single literals, so their parts are not looked at.
-/

namespace SourceSpans

/-- A node: the identity and the members of its object. -/
structure AstNode where
  id : NodeId
  members : List (String × Json)
  deriving Repr

namespace AstNode

/-! ### Classes -/

/-- The member that names the class. -/
def typeKey : String := "_type"

/-- Members that say where the node stands. -/
def placeKeys : List String := ["lineno", "col_offset", "end_lineno", "end_col_offset"]

/-- Classes that stand for no tokens. -/
def tokenlessKinds : List String :=
  ["Load", "Store", "Del", "AugLoad", "AugStore", "Param", "Add", "Sub", "Mult", "MatMult", "Div",
   "Mod", "Pow", "LShift", "RShift", "BitOr", "BitXor", "BitAnd", "FloorDiv", "And", "Or",
   "Invert", "Not", "UAdd", "USub", "Eq", "NotEq", "Lt", "LtE", "Gt", "GtE", "Is", "IsNot", "In",
   "NotIn", "TypeIgnore"]

/-- Classes that are single literals. -/
def opaqueKinds : List String := ["JoinedStr", "TemplateStr"]

/-- Classes whose fields are read in an order of their own. -/
def fieldOrders : List (String × List String) :=
  [("FunctionDef", ["decorator_list", "type_params", "args", "returns", "body"]),
   ("AsyncFunctionDef", ["decorator_list", "type_params", "args", "returns", "body"]),
   ("ClassDef", ["decorator_list", "type_params", "bases", "keywords", "body"]),
   ("IfExp", ["body", "test", "orelse"])]

/-! ### Members -/

/-- The node that a value is, if it stands for tokens. -/
def ofJson? : Json → Option AstNode
  | .object id members =>
      match members.lookup typeKey with
      | some (.string kind) => if tokenlessKinds.contains kind then none else some ⟨id, members⟩
      | _ => none
  | _ => none

/-- A member. -/
def get? (n : AstNode) (name : String) : Option Json := n.members.lookup name

/-- The class of a node. -/
def kind (n : AstNode) : String := ((n.get? typeKey).bind Json.string?).getD ""

/-- The items of a member; none if it is no array. -/
def items (n : AstNode) (name : String) : List Json := ((n.get? name).bind Json.items?).getD []

/-- The node in a member. -/
def node? (n : AstNode) (name : String) : Option AstNode := (n.get? name).bind ofJson?

/-- The nodes among the items of a member. -/
def nodes (n : AstNode) (name : String) : List AstNode := (n.items name).filterMap ofJson?

/-- A member as a field. -/
def field (n : AstNode) (name : String) : Field AstNode :=
  match n.get? name with
  | some (.array items) => .nodes (items.filterMap ofJson?)
  | some value =>
      match ofJson? value with
      | some child => .node child
      | none => .value
  | none => .value

/-! ### Fields -/

/-- The nodes among the keys and values of a mapping, each key before its value. -/
def entries : (keys values : List Json) → List AstNode
  | key :: keys, value :: values =>
      (ofJson? key).toList ++ (ofJson? value).toList ++ entries keys values
  | _, _ => []

/-- Parameters, each followed by its default while there are defaults. -/
def alternate : (params defaults : List AstNode) → List AstNode
  | param :: params, default :: defaults => param :: default :: alternate params defaults
  | params, [] => params
  | [], _ :: _ => []

/-- Positional parameters with their defaults, which belong to the last parameters. -/
def withDefaults (params defaults : List AstNode) : List AstNode :=
  let bare := params.length - defaults.length
  params.take bare ++ alternate (params.drop bare) defaults

/-- Keyword parameters, each followed by the default that stands at its index, if one does. -/
def withKeywordDefaults : (params : List AstNode) → (defaults : List Json) → List AstNode
  | [], _ => []
  | param :: params, [] => param :: withKeywordDefaults params []
  | param :: params, default :: defaults =>
      param :: (ofJson? default).toList ++ withKeywordDefaults params defaults

/-- The parameters of a parameter list in the order of the source, each before its default. -/
def parameters (n : AstNode) : List AstNode :=
  withDefaults (n.nodes "posonlyargs" ++ n.nodes "args") (n.nodes "defaults")
    ++ (n.node? "vararg").toList
    ++ withKeywordDefaults (n.nodes "kwonlyargs") (n.items "kw_defaults")
    ++ (n.node? "kwarg").toList

/-- The named fields of a node, in the order in which their tokens stand. -/
def fields (n : AstNode) : List (String × Field AstNode) :=
  if opaqueKinds.contains n.kind then []
  else if n.kind = "Dict" then
    [("items", .nodes (entries (n.items "keys") (n.items "values")))]
  else if n.kind = "MatchMapping" then
    [("items", .nodes (entries (n.items "keys") (n.items "patterns")))]
  else if n.kind = "arguments" then [("parameters", .nodes n.parameters)]
  else match fieldOrders.lookup n.kind with
    | some names => names.map fun name => (name, n.field name)
    | none =>
        ((n.members.map Prod.fst).filter fun name =>
          name != typeKey && !placeKeys.contains name).map fun name => (name, n.field name)

/-! ### Places and literals -/

/-- Where a node starts, if it says so. -/
def place? (n : AstNode) : Option Position := do
  let line ← (n.get? "lineno").bind Json.natural?
  let col ← (n.get? "col_offset").bind Json.natural?
  return ⟨line, col⟩

/-- A literal text that is written in a member. -/
def textLiteral? (n : AstNode) (name : String) : Option Literal :=
  ((n.get? name).bind Json.string?).map fun s => .text s.toList

/-- A keyword followed by the names in a member. -/
def wordsLiteral (n : AstNode) (keyword name : String) : Literal :=
  .words (keyword.toList :: ((n.items name).filterMap Json.string?).map String.toList)

/-- The name that a pattern captures; a missing name is the wildcard. -/
def capture (n : AstNode) : Text := (((n.get? "name").bind Json.string?).getD "_").toList

/-- What a constant looks like. -/
def constant? : Option Json → Option Literal
  | some (.string _) => some .strings
  | some (.number n) => some (.number n.isNegative)
  | some (.bool true) => some (.text "True".toList)
  | some (.bool false) => some (.text "False".toList)
  | some .null => some (.text "None".toList)
  | some (.object _ members) =>
      match members.lookup typeKey with
      | some (.string "Ellipsis") => some (.text "...".toList)
      | _ => none
  | _ => none

/-- What a node looks like among the tokens. -/
def literal? (n : AstNode) : Option Literal :=
  match n.kind with
  | "Name" => n.textLiteral? "id"
  | "arg" => n.textLiteral? "arg"
  | "alias" | "TypeVar" | "ParamSpec" | "TypeVarTuple" => n.textLiteral? "name"
  | "Constant" | "NameConstant" | "MatchSingleton" => constant? (n.get? "value")
  | "Num" => constant? (n.get? "n")
  | "Str" | "Bytes" | "JoinedStr" | "TemplateStr" => some .strings
  | "Ellipsis" => some (.text "...".toList)
  | "Global" => some (n.wordsLiteral "global" "names")
  | "Nonlocal" => some (n.wordsLiteral "nonlocal" "names")
  | "MatchAs" => some (.text n.capture)
  | "MatchStar" => some (.words ["*".toList, n.capture])
  | _ => none

/-- A node with its fields by identity. -/
def toNode (n : AstNode) : Node where
  kind := n.kind
  children? := none
  fields := n.fields.map fun f => (f.1, f.2.map AstNode.id)
  place? := n.place?
  literal? := n.literal?

/-! ### All nodes -/

mutual

/-- The nodes in a value, wherever they stand. -/
def allIn : Json → List AstNode
  | .object id members => (ofJson? (.object id members)).toList ++ allInMembers members
  | .array items => allInItems items
  | .null | .bool _ | .number _ | .string _ => []

/-- The nodes in the items of an array. -/
def allInItems : List Json → List AstNode
  | [] => []
  | v :: rest => allIn v ++ allInItems rest

/-- The nodes in the members of an object. -/
def allInMembers : List (String × Json) → List AstNode
  | [] => []
  | (_, v) :: rest => allIn v ++ allInMembers rest

end

end AstNode

/-- The nodes of a tree in JSON under the identities of their objects. -/
def NodeTable.ofJson (tree : Json) : NodeTable :=
  ⟨(AstNode.allIn tree).map fun n => (n.id, n.toNode)⟩

end SourceSpans
