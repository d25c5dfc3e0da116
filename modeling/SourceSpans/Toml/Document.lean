import SourceSpans.Toml.Reader

/-!
# TOML documents

`Toml.parse?` puts the statements of a document together to one table. A table is defined once: by
its header, or by the dotted keys of entries. A header may still name a table that was only passed
through on the way to a deeper header; it then moves behind its siblings.
-/

namespace SourceSpans.Toml

/-- Open the table with a header. -/
def openTable? : (path : List String) → Entries → Option Entries
  | [], _ => none
  | [name], es =>
      match es.lookup name with
      | none => some (es ++ [(name, .table false false [])])
      | some (.table true false inner) =>
          some (es.filter (fun e => e.1 != name) ++ [(name, .table false false inner)])
      | some _ => none
  | name :: path, es =>
      match es.lookup name with
      | none => (openTable? path []).map fun inner => es ++ [(name, .table true false inner)]
      | some (.table isImplicit isDotted inner) =>
          (openTable? path inner).map fun inner =>
            Item.set name (.table isImplicit isDotted inner) es
      | some (.tables elements) =>
          (Item.changeLast? (openTable? path) elements).map fun elements =>
            Item.set name (.tables elements) es
      | some (.value _) => none

/-- Open a new element of the array of tables with a header. -/
def openElement? : (path : List String) → Entries → Option Entries
  | [], _ => none
  | [name], es =>
      match es.lookup name with
      | none => some (es ++ [(name, .tables [[]])])
      | some (.tables elements) => some (Item.set name (.tables (elements ++ [[]])) es)
      | some _ => none
  | name :: path, es =>
      match es.lookup name with
      | none => (openElement? path []).map fun inner => es ++ [(name, .table true false inner)]
      | some (.table isImplicit isDotted inner) =>
          (openElement? path inner).map fun inner =>
            Item.set name (.table isImplicit isDotted inner) es
      | some (.tables elements) =>
          (Item.changeLast? (openElement? path) elements).map fun elements =>
            Item.set name (.tables elements) es
      | some (.value _) => none

/-- Change the entries of a table that has been opened. -/
def inTable? (f : Entries → Option Entries) : (path : List String) → Entries → Option Entries
  | [], es => f es
  | name :: path, es =>
      match es.lookup name with
      | some (.table isImplicit isDotted inner) =>
          (inTable? f path inner).map fun inner =>
            Item.set name (.table isImplicit isDotted inner) es
      | some (.tables elements) =>
          (Item.changeLast? (inTable? f path) elements).map fun elements =>
            Item.set name (.tables elements) es
      | _ => none

/-- Put statements together, when the table at `current` is open. -/
def assemble? : (current : List String) → Entries → List Statement → Option Entries
  | _, es, [] => some es
  | _, es, .header path :: rest => do assemble? path (← openTable? path es) rest
  | _, es, .elementHeader path :: rest => do assemble? path (← openElement? path es) rest
  | current, es, .entry path v :: rest => do
      assemble? current (← inTable? (Item.put? v true path) current es) rest

/-- The entries of a document; none if it is not TOML. -/
def parse? (document : String) : Option (List (String × Value)) := do
  let t := document.toList
  let t := if t.head? = some '\ufeff' then t.tail else t
  let statements ← statements? (t.length + 1) t
  return Item.entriesToValues (← assemble? [] [] statements)

end SourceSpans.Toml
