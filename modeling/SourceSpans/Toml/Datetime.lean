import SourceSpans.Number.Digits
import SourceSpans.Text.Basic

/-!
# Dates and times

A date, a time of day, or both, and in the last case possibly how far the time is ahead of universal
time. They are read in several spellings and written in one: with a capital `T` between date and
time, with seconds, and with as many digits of their fraction as are needed.
-/

namespace SourceSpans.Toml

/-- A day of the calendar. -/
structure Date where
  year : Nat
  month : Nat
  day : Nat
  deriving DecidableEq, Repr

/-- A time of day. A minute may have a second more than sixty. -/
structure Time where
  hour : Nat
  minute : Nat
  second : Nat
  nanosecond : Nat
  deriving DecidableEq, Repr

/-- How far a time is ahead of universal time. -/
inductive Offset
  | universal
  | ahead (isNegative : Bool) (hour minute : Nat)
  deriving DecidableEq, Repr

/-- A date, a time, or both. -/
inductive Datetime
  | date (d : Date)
  | time (t : Time)
  | moment (d : Date) (t : Time) (offset? : Option Offset)
  deriving DecidableEq, Repr

/-! ### Writing -/

/-- A date, written with hyphens. -/
def Date.describe (d : Date) : String :=
  String.ofList (padded 4 d.year ++ '-' :: padded 2 d.month ++ '-' :: padded 2 d.day)

/-- The fraction of a second, written without trailing zeros; nothing if there is none. -/
def fractionText (nanosecond : Nat) : List Char :=
  if nanosecond = 0 then []
  else '.' :: ((padded 9 nanosecond).reverse.dropWhile (· == '0')).reverse

/-- A time, written with colons. -/
def Time.describe (t : Time) : String :=
  String.ofList (padded 2 t.hour ++ ':' :: padded 2 t.minute ++ ':' :: padded 2 t.second
    ++ fractionText t.nanosecond)

/-- An offset, written with its sign; nothing has no negative sign. -/
def Offset.describe : Offset → String
  | universal => "Z"
  | ahead isNegative hour minute =>
      let sign := if isNegative ∧ (hour ≠ 0 ∨ minute ≠ 0) then '-' else '+'
      String.ofList (sign :: padded 2 hour ++ ':' :: padded 2 minute)

/-- How a date, a time, or both are written. -/
def Datetime.describe : Datetime → String
  | date d => d.describe
  | time t => t.describe
  | moment d t offset? =>
      d.describe ++ "T" ++ t.describe ++ (offset?.map Offset.describe).getD ""

/-! ### Reading -/

/-- The number that exactly so many decimal digits write, and what follows. -/
def fixed? (count : Nat) (t : Text) : Option (Nat × Text) :=
  let ds := t.take count
  if ds.length = count ∧ ds.all Char.isDigit then some (ofDigits 10 ds, t.drop count) else none

/-- What follows a given character. -/
def after? (c : Char) : Text → Option Text
  | d :: rest => if c = d then some rest else none
  | [] => none

/-- The number of days of a month. -/
def daysIn (year month : Nat) : Nat :=
  if month = 2 then
    if (year % 4 = 0 ∧ year % 100 ≠ 0) ∨ year % 400 = 0 then 29 else 28
  else if month = 4 ∨ month = 6 ∨ month = 9 ∨ month = 11 then 30
  else 31

/-- The date at the start. -/
def date? (t : Text) : Option (Date × Text) := do
  let (year, t) ← fixed? 4 t
  let (month, t) ← fixed? 2 (← after? '-' t)
  let (day, t) ← fixed? 2 (← after? '-' t)
  if 1 ≤ month ∧ month ≤ 12 ∧ 1 ≤ day ∧ day ≤ daysIn year month then
    return (⟨year, month, day⟩, t)
  else none

/-- The fraction of a second at the start, if there is one, in nanoseconds. Digits beyond the ninth
are left out. -/
def nanosecond? : Text → Option (Nat × Text)
  | '.' :: rest =>
      match rest.takeWhile Char.isDigit with
      | [] => none
      | ds => some (ofDigits 10 ((ds ++ List.replicate 9 '0').take 9), rest.dropWhile Char.isDigit)
  | t => some (0, t)

/-- The time at the start. The seconds may be left out. -/
def time? (t : Text) : Option (Time × Text) := do
  let (hour, t) ← fixed? 2 t
  let (minute, t) ← fixed? 2 (← after? ':' t)
  if 23 < hour ∨ 59 < minute then none
  else match t with
    | ':' :: t => do
        let (second, t) ← fixed? 2 t
        let (nanosecond, t) ← nanosecond? t
        if 60 < second then none else return (⟨hour, minute, second, nanosecond⟩, t)
    | t => return (⟨hour, minute, 0, 0⟩, t)

/-- The offset that a text writes. -/
def offset? : Text → Option Offset
  | ['Z'] | ['z'] => some .universal
  | c :: t =>
      if c = '+' ∨ c = '-' then do
        let (hour, t) ← fixed? 2 t
        let (minute, t) ← fixed? 2 (← after? ':' t)
        if hour ≤ 23 ∧ minute ≤ 59 ∧ t = [] then return .ahead (c == '-') hour minute else none
      else none
  | [] => none

/-- The date, the time, or both that a word writes. -/
def datetime? (t : Text) : Option Datetime :=
  match date? t with
  | some (d, []) => some (.date d)
  | some (d, c :: rest) =>
      if c = 'T' ∨ c = 't' ∨ c = ' ' then
        match time? rest with
        | some (time, []) => some (.moment d time none)
        | some (time, zone) => (offset? zone).map fun offset => .moment d time (some offset)
        | none => none
      else none
  | none =>
      match time? t with
      | some (time, []) => some (.time time)
      | _ => none

end SourceSpans.Toml
