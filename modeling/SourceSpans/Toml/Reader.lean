import SourceSpans.Toml.Scalar

/-!
# Reading TOML

A document is read as a list of statements: table headers and entries, each with its path of keys.
What the statements amount to together is settled in `Toml.Document`.

Every step that recurs takes a character at least, so a reader that may take as many steps as there
are characters never runs out of them.
-/

namespace SourceSpans.Toml

/-- A line of a document that says something. -/
inductive Statement
  /-- The entries that follow belong to this table. -/
  | header (path : List String)
  /-- The entries that follow belong to a new element of this array of tables. -/
  | elementHeader (path : List String)
  | entry (path : List String) (value : Value)
  deriving Repr

/-! ### Blanks, comments and line ends -/

/-- Blanks inside a line. -/
def isSpace (c : Char) : Bool := c == ' ' || c == '\t'

/-- What follows the blanks. -/
def skipSpace (t : Text) : Text := t.dropWhile isSpace

/-- What follows a line end. -/
def lineEnd? : Text → Option Text
  | '\n' :: rest => some rest
  | '\r' :: '\n' :: rest => some rest
  | _ => none

/-- Characters that may stand in a comment and in strings of one line. -/
def isPlain (c : Char) : Bool := c == '\t' || (0x20 ≤ c.toNat && c.toNat != 0x7F)

/-- What follows a comment, if there is one. -/
def skipComment : Text → Text
  | '#' :: rest => rest.dropWhile isPlain
  | t => t

/-- What follows the rest of a line that says nothing more. -/
def endOfLine? (t : Text) : Option Text :=
  match skipComment (skipSpace t) with
  | [] => some []
  | t => lineEnd? t

/-- What follows blanks, comments and line ends. -/
def skipLines : (fuel : Nat) → Text → Text
  | 0, t => t
  | fuel + 1, t =>
      match lineEnd? (skipComment (skipSpace t)) with
      | some rest => skipLines fuel rest
      | none => skipComment (skipSpace t)

/-- What follows everything between the parts of a value. -/
def skipGap (t : Text) : Text := skipLines t.length t

/-! ### Strings -/

/-- The character with a code of so many hexadecimal digits. -/
def coded? (count : Nat) (t : Text) : Option (Char × Text) :=
  let ds := t.take count
  let n := ofDigits 16 ds
  if ds.length = count ∧ ds.all (isDigitOf 16) ∧ n.isValidChar then
    some (Char.ofNat n, t.drop count)
  else none

/-- The character that an escape after its backslash stands for. -/
def escape? : Text → Option (Char × Text)
  | 'b' :: rest => some ('\x08', rest)
  | 't' :: rest => some ('\t', rest)
  | 'n' :: rest => some ('\n', rest)
  | 'f' :: rest => some ('\x0c', rest)
  | 'r' :: rest => some ('\r', rest)
  | 'e' :: rest => some ('\x1b', rest)
  | '"' :: rest => some ('"', rest)
  | '\\' :: rest => some ('\\', rest)
  | 'x' :: rest => coded? 2 rest
  | 'u' :: rest => coded? 4 rest
  | 'U' :: rest => coded? 8 rest
  | _ => none

/-- The rest of a string of one line with escapes. -/
def basicTail? : (fuel : Nat) → Text → Option (List Char × Text)
  | fuel + 1, c :: rest =>
      if c = '"' then some ([], rest)
      else if c = '\\' then do
        let (c, rest) ← escape? rest
        let (cs, rest) ← basicTail? fuel rest
        return (c :: cs, rest)
      else if isPlain c then (basicTail? fuel rest).map fun (cs, rest) => (c :: cs, rest)
      else none
  | _, _ => none

/-- The rest of a string of one line without escapes. -/
def literalTail? : Text → Option (List Char × Text)
  | [] => none
  | c :: rest =>
      if c = '\'' then some ([], rest)
      else if isPlain c then (literalTail? rest).map fun (cs, rest) => (c :: cs, rest)
      else none

/-- What follows blanks and line ends. -/
def skipBlankLines : Text → Text
  | ' ' :: rest | '\t' :: rest | '\n' :: rest | '\r' :: '\n' :: rest => skipBlankLines rest
  | t => t

/-- What follows blanks and line ends, if there is a line end after the first blanks. -/
def continued? (t : Text) : Option Text := (lineEnd? (skipSpace t)).map skipBlankLines

/-- The rest of a string of several lines. Three quotes close it; up to two more before them belong
to it. Line ends stay as they are written. -/
def linesTail? (quote : Char) (escapes : Bool) : (fuel : Nat) → Text → Option (List Char × Text)
  | fuel + 1, c :: rest =>
      if c = quote then
        let quotes := 1 + (rest.takeWhile (· == quote)).length
        if 3 ≤ quotes then
          let inside := min (quotes - 3) 2
          some (List.replicate inside quote, rest.drop (inside + 2))
        else
          (linesTail? quote escapes fuel (rest.drop (quotes - 1))).map fun (cs, rest) =>
            (List.replicate quotes quote ++ cs, rest)
      else if c = '\\' ∧ escapes = true then
        match continued? rest with
        | some rest => linesTail? quote escapes fuel rest
        | none => do
            let (c, rest) ← escape? rest
            let (cs, rest) ← linesTail? quote escapes fuel rest
            return (c :: cs, rest)
      else
        let endsLine := (lineEnd? (c :: rest)).isSome
        if isPlain c ∨ endsLine = true then
          (linesTail? quote escapes fuel rest).map fun (cs, rest) => (c :: cs, rest)
        else none
  | _, _ => none

/-- The rest of a string of several lines after its opening quotes, without a first line end. -/
def lines? (quote : Char) (escapes : Bool) (t : Text) : Option (List Char × Text) :=
  linesTail? quote escapes (t.length + 1) ((lineEnd? t).getD t)

/-- The string at the start, if one starts there. -/
def string? : Text → Option (List Char × Text)
  | '"' :: '"' :: '"' :: rest => lines? '"' true rest
  | '\'' :: '\'' :: '\'' :: rest => lines? '\'' false rest
  | '"' :: rest => basicTail? (rest.length + 1) rest
  | '\'' :: rest => literalTail? rest
  | _ => none

/-! ### Keys -/

/-- Characters of a bare key. -/
def isBare (c : Char) : Bool := c.isAlphanum || c == '_' || c == '-'

/-- One part of a key. -/
def keyPart? : Text → Option (String × Text)
  | '"' :: rest =>
      (basicTail? (rest.length + 1) rest).map fun (cs, rest) => (String.ofList cs, rest)
  | '\'' :: rest => (literalTail? rest).map fun (cs, rest) => (String.ofList cs, rest)
  | t =>
      match t.takeWhile isBare with
      | [] => none
      | cs => some (String.ofList cs, t.dropWhile isBare)

/-- A key of so many parts at most, with points between them. -/
def keyWithin? : (count : Nat) → Text → Option (List String × Text)
  | 0, _ => none
  | count + 1, t => do
      let (part, rest) ← keyPart? t
      match skipSpace rest with
      | '.' :: more =>
          let (parts, rest) ← keyWithin? count (skipSpace more)
          return (part :: parts, rest)
      | _ => return ([part], rest)

/-- How many parts a key may have, and how many brackets and braces may be open around a value. -/
def nestingLimit : Nat := 80

/-- The key at the start. -/
def key? (t : Text) : Option (List String × Text) := keyWithin? nestingLimit t

/-! ### Tables -/

/-- A table while it is put together. -/
inductive Item
  | value (v : Value)
  /-- A table. It is implicit if it was only named on the way to another one, and dotted if that
  was in the key of an entry. -/
  | table (isImplicit isDotted : Bool) (entries : List (String × Item))
  /-- The elements of an array of tables. -/
  | tables (elements : List (List (String × Item)))
  deriving Repr

/-- The entries of a table while it is put together. -/
abbrev Entries := List (String × Item)

namespace Item

/-- Put an item in place of the one with its name. -/
def set (name : String) (item : Item) (es : Entries) : Entries :=
  es.map fun e => if e.1 = name then (name, item) else e

mutual

/-- The value that an item amounts to. -/
def toValue : Item → Value
  | .value v => v
  | .table _ _ entries => .table (entriesToValues entries)
  | .tables elements => .tables (elementsToValues elements)

/-- The values that entries amount to. -/
def entriesToValues : List (String × Item) → List (String × Value)
  | [] => []
  | (name, item) :: rest => (name, toValue item) :: entriesToValues rest

/-- The values that the elements of an array of tables amount to. -/
def elementsToValues : List (List (String × Item)) → List (List (String × Value))
  | [] => []
  | element :: rest => entriesToValues element :: elementsToValues rest

end

/-- Change the last element of an array of tables. -/
def changeLast? (f : Entries → Option Entries) (elements : List Entries) :
    Option (List Entries) :=
  match elements.getLast? with
  | none => none
  | some last => (f last).map fun changed => elements.dropLast ++ [changed]

/-- Put a value under a key with several parts. Tables on the way have to be implicit, and the last
of them has to be dotted; `isAllowed` says whether an entry may be put right here. -/
def put? (v : Value) : (isAllowed : Bool) → (path : List String) → Entries → Option Entries
  | _, [], _ => none
  | isAllowed, [name], es =>
      if isAllowed ∧ (es.lookup name).isNone then some (es ++ [(name, .value v)]) else none
  | _, name :: path, es =>
      match es.lookup name with
      | none => (put? v true path []).map fun inner => es ++ [(name, .table true true inner)]
      | some (.table true isDotted inner) =>
          (put? v isDotted path inner).map fun inner => set name (.table true isDotted inner) es
      | some (.tables elements) =>
          (changeLast? (put? v false path) elements).map fun elements =>
            set name (.tables elements) es
      | some _ => none

end Item

/-! ### Values -/

/-- Characters of a number, a date or a time. -/
def isWordPart (c : Char) : Bool :=
  c.isAlphanum || c == '_' || c == '-' || c == '+' || c == '.' || c == ':'

/-- The word at the start. A blank may stand between a date and a time. -/
def wordAt (t : Text) : Text × Text :=
  let word := t.takeWhile isWordPart
  let rest := t.dropWhile isWordPart
  match rest with
  | ' ' :: c :: more =>
      if (date? word).any (fun d => d.2.isEmpty) ∧ c.isDigit = true then
        (word ++ ' ' :: (c :: more).takeWhile isWordPart, (c :: more).dropWhile isWordPart)
      else (word, rest)
  | _ => (word, rest)

mutual

/-- The value at the start, in which brackets and braces may be open so deep. -/
def value? : (fuel depth : Nat) → Text → Option (Value × Text)
  | 0, _, _ => none
  | fuel + 1, depth, t =>
      match t, depth with
      | '[' :: _, 0 | '\x7b' :: _, 0 => none
      | '[' :: rest, depth + 1 =>
          (items? fuel depth (skipGap rest)).map fun (items, rest) => (.array items, rest)
      | '\x7b' :: rest, depth + 1 =>
          (pairs? fuel depth [] (skipGap rest)).map fun (es, rest) =>
            (.table (Item.entriesToValues es), rest)
      | '"' :: _, _ | '\'' :: _, _ =>
          (string? t).map fun (cs, rest) => (.string (String.ofList cs), rest)
      | t, _ => (word? (wordAt t).1).map fun v => (v, (wordAt t).2)

/-- The items of an array up to its end. -/
def items? : (fuel depth : Nat) → Text → Option (List Value × Text)
  | 0, _, _ => none
  | fuel + 1, depth, t =>
      match t with
      | ']' :: rest => some ([], rest)
      | t => do
          let (item, rest) ← value? fuel depth t
          match skipGap rest with
          | ']' :: rest => return ([item], rest)
          | ',' :: rest =>
              let (items, rest) ← items? fuel depth (skipGap rest)
              return (item :: items, rest)
          | _ => none

/-- The entries of a table in braces up to its end, after those read already. Lines may end anywhere
but inside a key. -/
def pairs? : (fuel depth : Nat) → Entries → Text → Option (Entries × Text)
  | 0, _, _, _ => none
  | fuel + 1, depth, es, t =>
      match t with
      | '\x7d' :: rest => some (es, rest)
      | t => do
          let (path, rest) ← key? t
          let rest ← after? '=' (skipGap rest)
          let (v, rest) ← value? fuel depth (skipGap rest)
          let es ← Item.put? v true path es
          match skipGap rest with
          | '\x7d' :: rest => return (es, rest)
          | ',' :: rest => pairs? fuel depth es (skipGap rest)
          | _ => none

end

/-! ### Statements -/

/-- The statement at the start of a line, up to the end of the line. -/
def statement? (t : Text) : Option (Statement × Text) :=
  match t with
  | '[' :: '[' :: rest => do
      let (path, rest) ← key? (skipSpace rest)
      let rest ← after? ']' (skipSpace rest)
      let rest ← after? ']' rest
      return (.elementHeader path, ← endOfLine? rest)
  | '[' :: rest => do
      let (path, rest) ← key? (skipSpace rest)
      let rest ← after? ']' (skipSpace rest)
      return (.header path, ← endOfLine? rest)
  | t => do
      let (path, rest) ← key? t
      let rest ← after? '=' (skipSpace rest)
      let (v, rest) ← value? (2 * t.length + 2) nestingLimit (skipSpace rest)
      return (.entry path v, ← endOfLine? rest)

/-- The statements of a document. -/
def statements? : (fuel : Nat) → Text → Option (List Statement)
  | 0, _ => none
  | fuel + 1, t =>
      match skipGap t with
      | [] => some []
      | t => do
          let (s, rest) ← statement? t
          return s :: (← statements? fuel rest)

end SourceSpans.Toml
