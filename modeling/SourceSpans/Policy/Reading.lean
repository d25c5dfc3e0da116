import SourceSpans.Files.Tree
import SourceSpans.Policy.Table
import SourceSpans.Text.Quoted
import SourceSpans.Toml.Document

/-!
# Reading policy tables

A policy table is written as a TOML document: `[meta]` names it, and each table under `kinds` is the
rule for a kind of node. Entries are read in the order of the document, and reading stops at the
first that does not fit. What has been read is then checked as a whole by `PolicyTable.validate`.

Where a rule or `[meta]` is an array instead of a table, its items are the fields in their order.
-/

namespace SourceSpans

/-- What the value of an entry has to be. -/
inductive EntryType
  | sequence
  | string
  | boolean
  | map
  | rule
  | metadata
  deriving DecidableEq, Repr

/-- How a type of entries is written. -/
def EntryType.label : EntryType → String
  | sequence => "a sequence"
  | string => "a string"
  | boolean => "a boolean"
  | map => "a map"
  | rule => "struct Rule"
  | metadata => "struct Metadata"

/-- Why a TOML document is no policy table. -/
inductive SchemaError
  | wrongType (found : Toml.Value) (expected : EntryType)
  | badPattern (cause : PatternError)
  | unknownField (name : String)
  | unknownWrap (name : String)
  /-- A wrap is neither a string nor a table. -/
  | wrapNotNamed
  /-- A wrap that is a table has none or several entries. -/
  | wrapNotSingle (isEmpty : Bool)
  /-- The one entry of a wrap that is a table holds something. -/
  | wrapNotEmpty (found : Toml.Value)
  deriving Repr

namespace SchemaError

/-- A value as messages show it. -/
def describeValue : Toml.Value → String
  | .string s => "string " ++ Text.quoted s.toList
  | .integer n => "integer `" ++ toString n ++ "`"
  | .float d => "floating point `" ++ d.describe ++ "`"
  | .boolean b => "boolean `" ++ toString b ++ "`"
  | .array _ | .tables _ => "sequence"
  | .datetime _ | .table _ => "map"

/-- The names of fields or variants one of which was expected. -/
def oneOf (names : List String) : String :=
  "expected one of " ++ ", ".intercalate (names.map fun name => "`" ++ name ++ "`")

/-- What went wrong. -/
def message : SchemaError → String
  | wrongType found expected =>
      "invalid type: " ++ describeValue found ++ ", expected " ++ expected.label
  | badPattern cause => cause.message
  | unknownField name => "unknown field `" ++ name ++ "`, " ++ oneOf Rule.fieldNames
  | unknownWrap name => "unknown variant `" ++ name ++ "`, " ++ oneOf (Wrap.variants.map Wrap.label)
  | wrapNotNamed => "wanted string or table"
  | wrapNotSingle isEmpty =>
      "wanted exactly 1 element, " ++ if isEmpty then "found 0 elements" else "more than 1 element"
  | wrapNotEmpty found =>
      match found with
      | .array _ | .table _ => "expected empty table"
      | .tables _ => "expected empty array"
      | .string _ => "expected table, found string"
      | .integer _ => "expected table, found integer"
      | .float _ => "expected table, found float"
      | .boolean _ => "expected table, found boolean"
      | .datetime _ => "expected table, found datetime"

end SchemaError

/-! ### Rules -/

namespace Pattern

/-- The pattern that a value writes. -/
def ofValue : Toml.Value → Except SchemaError Pattern
  | .string s => (parse s.toList).mapError .badPattern
  | v => .error (.wrongType v .string)

/-- The sequence that a value writes. -/
def sequenceOfValue (v : Toml.Value) : Except SchemaError PatternSequence :=
  match v.items? with
  | some items => items.mapM ofValue
  | none => .error (.wrongType v .sequence)

/-- The alternatives that a value writes. -/
def alternativesOfValue (v : Toml.Value) : Except SchemaError (List PatternSequence) :=
  match v.items? with
  | some items => items.mapM sequenceOfValue
  | none => .error (.wrongType v .sequence)

end Pattern

namespace Wrap

/-- The wrap with a label. -/
def ofLabel (name : String) : Except SchemaError Wrap :=
  match variants.find? fun w => w.label == name with
  | .some w => .ok w
  | .none => .error (.unknownWrap name)

/-- The wrap that a value writes: its label, or a table with an empty entry of that name. -/
def ofValue : Toml.Value → Except SchemaError Wrap
  | .string name => ofLabel name
  | .table [(name, content)] => do
      let w ← ofLabel name
      match content with
      | .array [] | .table [] => return w
      | _ => .error (.wrapNotEmpty content)
  | .table entries => .error (.wrapNotSingle entries.isEmpty)
  | _ => .error .wrapNotNamed

end Wrap

namespace Rule

/-- A truth value. -/
def flagOfValue : Toml.Value → Except SchemaError Bool
  | .boolean b => .ok b
  | v => .error (.wrongType v .boolean)

/-- Take in one field. -/
def readField (r : Rule) (name : String) (v : Toml.Value) : Except SchemaError Rule :=
  match name with
  | "head" => return { r with head := ← Pattern.alternativesOfValue v }
  | "intro" => return { r with intro := ← Pattern.alternativesOfValue v }
  | "lead" => return { r with lead := ← Pattern.alternativesOfValue v }
  | "trail" => return { r with trail := ← Pattern.alternativesOfValue v }
  | "empty" => return { r with empty := ← Pattern.alternativesOfValue v }
  | "wrap" => return { r with wrap := ← Wrap.ofValue v }
  | "reach" => return { r with reach := ← flagOfValue v }
  | _ => .error (.unknownField name)

/-- The rule that a value writes. -/
def ofValue (v : Toml.Value) : Except SchemaError Rule :=
  match v.fields? fieldNames with
  | some fields => fields.foldlM (fun r f => r.readField f.1 f.2) {}
  | none => .error (.wrongType v .rule)

end Rule

/-! ### Tables -/

namespace PolicyTable

/-- A string. -/
def stringOfValue : Toml.Value → Except SchemaError String
  | .string s => .ok s
  | v => .error (.wrongType v .string)

/-- Take in one entry of `[meta]`. -/
def readMetaField (t : PolicyTable) (name : String) (v : Toml.Value) :
    Except SchemaError PolicyTable :=
  match name with
  | "name" => return { t with name := ← stringOfValue v }
  | "description" => return { t with description? := some (← stringOfValue v) }
  | _ => return t

/-- Take in `[meta]`. -/
def readMeta (t : PolicyTable) (v : Toml.Value) : Except SchemaError PolicyTable :=
  match v.fields? ["name", "description"] with
  | some fields => fields.foldlM (fun t f => t.readMetaField f.1 f.2) t
  | none => .error (.wrongType v .metadata)

/-- The rules that a value writes. -/
def kindsOfValue (v : Toml.Value) : Except SchemaError (List (String × Rule)) :=
  match v.entries? with
  | some entries => entries.mapM fun e => return (e.1, ← Rule.ofValue e.2)
  | none => .error (.wrongType v .map)

/-- Take in one entry of a document. -/
def readEntry (t : PolicyTable) (name : String) (v : Toml.Value) :
    Except SchemaError PolicyTable :=
  match name with
  | "meta" => t.readMeta v
  | "kinds" => return { t with kinds := ← kindsOfValue v }
  | _ => return t

/-- The table that the entries of a document write. -/
def ofEntries (entries : List (String × Toml.Value)) : Except SchemaError PolicyTable :=
  entries.foldlM (fun t e => t.readEntry e.1 e.2) empty

end PolicyTable

/-! ### Documents -/

/-- Where a policy table comes from. -/
inductive PolicyOrigin
  | inline
  | file (path : String)
  deriving DecidableEq, Repr

/-- How an origin is written. -/
def PolicyOrigin.describe : PolicyOrigin → String
  | inline => "inline policy table"
  | file path => "policy table " ++ path

/-- Why there is no policy table. -/
inductive PolicyError
  | unreadable (path : String) (cause : FileError)
  /-- The document is not TOML. -/
  | notToml (origin : PolicyOrigin)
  /-- The document is TOML, but no policy table. -/
  | schema (origin : PolicyOrigin) (cause : SchemaError)
  /-- The policy table with this name is not valid. -/
  | invalid (origin : PolicyOrigin) (table : String) (issues : List PolicyIssue)
  deriving Repr

namespace PolicyError

/-- Where the policy table was to come from. -/
def origin : PolicyError → PolicyOrigin
  | unreadable path _ => .file path
  | notToml origin | schema origin _ | invalid origin _ _ => origin

/-- What went wrong. -/
def message : PolicyError → String
  | unreadable path cause => "failed to read policy table from " ++ path ++ ": " ++ cause.message
  | notToml origin => "failed to parse " ++ origin.describe
  | schema origin cause => "failed to parse " ++ origin.describe ++ ": " ++ cause.message
  | invalid origin table issues =>
      let named := if table.isEmpty then "" else " '" ++ table ++ "'"
      "invalid " ++ origin.describe ++ named ++ ": "
        ++ "\n".intercalate (issues.map PolicyIssue.message)

end PolicyError

namespace PolicyTable

/-- The valid table that a document writes. -/
def parse (origin : PolicyOrigin) (document : String) : Except PolicyError PolicyTable := do
  match Toml.parse? document with
  | none => .error (.notToml origin)
  | some entries =>
      let t ← (ofEntries entries).mapError (.schema origin)
      t.validate.mapError (.invalid origin t.name)

/-- The valid table in the file at a path, where `read` gives what a file holds or why it cannot be
read. -/
def load (read : String → Except FileError String) (path : String) :
    Except PolicyError PolicyTable := do
  let document ← (read path).mapError (.unreadable path)
  parse (.file path) document

end PolicyTable

end SourceSpans
