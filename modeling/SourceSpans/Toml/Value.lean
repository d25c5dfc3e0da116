import SourceSpans.Number.Double
import SourceSpans.Toml.Datetime

/-!
# TOML values

Tables keep their entries in the order in which they are written. Floats are in double precision,
and an array of tables that is put together from headers is told apart from one in brackets.
-/

namespace SourceSpans.Toml

/-- A floating point number. -/
inductive Floating
  | finite (isNegative : Bool) (magnitude : Double)
  | infinite (isNegative : Bool)
  | notANumber
  deriving DecidableEq, Repr

/-- How a floating point number is written in messages. -/
def Floating.describe : Floating → String
  | finite isNegative magnitude => (if isNegative then "-" else "") ++ magnitude.positional
  | infinite isNegative => if isNegative then "-inf" else "inf"
  | notANumber => "NaN"

/-- A TOML value. -/
inductive Value
  | string (s : String)
  | integer (n : Int)
  | float (x : Floating)
  | boolean (b : Bool)
  | datetime (d : Datetime)
  | array (items : List Value)
  | table (entries : List (String × Value))
  /-- An array of tables, each under a header of its own. -/
  | tables (elements : List (List (String × Value)))
  deriving Repr, Inhabited

namespace Value

/-- The items of an array. -/
def items? : Value → Option (List Value)
  | array items => some items
  | tables elements => some (elements.map table)
  | _ => none

/-- The entries of a table. A date counts as a table that holds nothing but how it is written, under
a name of its own. -/
def entries? : Value → Option (List (String × Value))
  | table entries => some entries
  | datetime d => some [("$__toml_private_datetime", string d.describe)]
  | _ => none

/-- The fields of a record, given by name in a table, or in the order of `names` in an array. -/
def fields? (names : List String) (v : Value) : Option (List (String × Value)) :=
  match v.items? with
  | some items => some (names.zip items)
  | none => v.entries?

end Value

end SourceSpans.Toml
