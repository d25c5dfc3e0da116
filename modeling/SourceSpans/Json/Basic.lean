/-!
# JSON values

Objects keep their members in the order they are written, and each object has an identity, so that
two objects with the same members are still two. Numbers keep what the readers of a tree ask for:
the value of an integer of at most 64 bits, and the sign of any other number.
-/

namespace SourceSpans

/-- A JSON number. -/
inductive JsonNumber
  /-- An integer that fits into 64 bits, with or without a sign. -/
  | integer (n : Int)
  /-- Any other number, of which only matters whether it is below zero once it is rounded to
  double precision. -/
  | real (isNegative : Bool)
  deriving DecidableEq, Repr

/-- A JSON value. -/
inductive Json
  | null
  | bool (b : Bool)
  | number (n : JsonNumber)
  | string (s : String)
  | array (items : List Json)
  | object (id : Nat) (members : List (String × Json))
  deriving Repr, Inhabited

namespace JsonNumber

/-- The value of an integer that is not negative. -/
def natural? : JsonNumber → Option Nat
  | integer (.ofNat n) => some n
  | _ => none

/-- Whether the number is below zero. -/
def isNegative : JsonNumber → Bool
  | integer n => n < 0
  | real b => b

end JsonNumber

namespace Json

/-- The natural number that a value is. -/
def natural? : Json → Option Nat
  | number n => n.natural?
  | _ => none

/-- The string that a value is. -/
def string? : Json → Option String
  | string s => some s
  | _ => none

/-- The items of an array. -/
def items? : Json → Option (List Json)
  | array items => some items
  | _ => none

/-- A member of an object. -/
def member? (v : Json) (name : String) : Option Json :=
  match v with
  | object _ members => members.lookup name
  | _ => none

/-- Put a member into a list of members: in place of the member with its name, or else at the
end. -/
def putMember (name : String) (value : Json) : List (String × Json) → List (String × Json)
  | [] => [(name, value)]
  | (n, v) :: rest =>
      if n = name then (name, value) :: rest else (n, v) :: putMember name value rest

end Json

end SourceSpans
