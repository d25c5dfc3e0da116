import SourceSpans.Text.Basic

/-!
# Files

A tree of directories and files, and what is found in it at a path. A path is followed name by name,
and the first step that cannot be taken says why there is nothing to read: a name is looked for only
in a directory, and only if it is not too long for one.
-/

namespace SourceSpans

/-- A file, or a directory with what is in it. -/
inductive FileTree
  | file (content : String)
  | directory (entries : List (String × FileTree))

/-- Why a file cannot be read. -/
inductive FileError
  /-- There is nothing of that name. -/
  | absent
  /-- Something is looked for in a file, as if it were a directory. -/
  | notADirectory
  /-- What is found is a directory. -/
  | isADirectory
  /-- A name, or the path as a whole, is too long. -/
  | nameTooLong
  /-- The path holds the character with which paths end. -/
  | hasNul
  deriving DecidableEq, Repr

/-- What went wrong. -/
def FileError.message : FileError → String
  | absent => "No such file or directory (os error 2)"
  | notADirectory => "Not a directory (os error 20)"
  | isADirectory => "Is a directory (os error 21)"
  | nameTooLong => "File name too long (os error 36)"
  | hasNul => "file name contained an unexpected NUL byte"

namespace FileTree

/-- The names in a path, one more than there are slashes in it. -/
def names : Text → List Text
  | [] => [[]]
  | c :: rest =>
      if c = '/' then [] :: names rest
      else match names rest with
        | [] => [[c]]
        | name :: more => (c :: name) :: more

theorem names_ne_nil (t : Text) : names t ≠ [] := by
  cases t with
  | nil => simp [names]
  | cons c rest => rw [names]; split <;> (try split) <;> simp

/-- The names of a path are what stands between its slashes. -/
theorem intercalate_names (t : Text) : ['/'].intercalate (names t) = t := by
  induction t with
  | nil => rfl
  | cons c rest ih =>
    rw [names]
    cases h : names rest with
    | nil => exact absurd h (names_ne_nil rest)
    | cons name more =>
      rw [h] at ih
      split
      · next hc =>
        simp only [List.intercalate, List.intersperse, List.flatten_cons] at ih ⊢
        simp [ih, hc]
      · cases more with
        | nil => simpa [List.intercalate] using ih
        | cons other more => simpa [List.intercalate, List.intersperse] using ih

/-- What is found by following names from a place, below the given directories, the nearest first.
An empty name and a single point stay at the place, and two points go up; the root is above
itself. -/
def follow : (above : List FileTree) → (place : FileTree) → List Text → Except FileError FileTree
  | _, place, [] => .ok place
  | _, .file _, _ :: _ => .error .notADirectory
  | above, .directory entries, name :: rest =>
      if name = [] ∨ name = ['.'] then follow above (.directory entries) rest
      else if name = ['.', '.'] then
        match above with
        | [] => follow [] (.directory entries) rest
        | parent :: above => follow above parent rest
      else if 255 < Text.size name then .error .nameTooLong
      else match entries.lookup (String.ofList name) with
        | some found => follow (.directory entries :: above) found rest
        | none => .error .absent

/-- What the file at a path holds. A path without a slash in front starts at the working
directory, which is given by the names that lead to it. -/
def read (root : FileTree) (working : List String) (path : String) : Except FileError String :=
  let t := path.toList
  if '\x00' ∈ t then .error .hasNul
  else if 4096 ≤ Text.size t then .error .nameTooLong
  else if t = [] then .error .absent
  else do
    let start := if t.head? = some '/' then [] else working.map String.toList
    match ← follow [] root (start ++ names t) with
    | .file content => .ok content
    | .directory _ => .error .isADirectory

end FileTree

end SourceSpans
