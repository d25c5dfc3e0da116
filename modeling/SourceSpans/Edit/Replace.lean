import SourceSpans.Edit.Basic

/-!
# Applying a batch of edits

All offsets of a batch refer to the text it is applied to. `replace` applies the edits from left
to right in one pass; edits with the same offsets keep the order in which they are given. Ranges
may touch but not overlap, and nothing is applied unless every edit is right.
-/

namespace SourceSpans

/-- The first edit in order that starts before the edit before it stops. -/
def overlap? : List Edit → Option PatchError
  | [] => none
  | [_] => none
  | e :: f :: rest =>
      if f.start < e.stop then some (.overlap e.start e.stop f.start f.stop)
      else overlap? (f :: rest)

/-- The text from a place on, with edits in order applied to it. -/
def splice (t : Text) (place : Nat) : List Edit → Text
  | [] => (Text.slice? t place (Text.size t)).getD []
  | e :: rest => (Text.slice? t place e.start).getD [] ++ e.newText ++ splice t e.stop rest

/-- Apply a batch of edits. The first edit that is wrong on its own is reported before any two that
overlap. -/
def replace (t : Text) (edits : List Edit) : Except PatchError Text :=
  match edits.findSome? (Edit.fault? t) with
  | some error => .error error
  | none =>
      let sorted := edits.mergeSort Edit.precedes
      match overlap? sorted with
      | some error => .error error
      | none => .ok (splice t 0 sorted)

end SourceSpans
