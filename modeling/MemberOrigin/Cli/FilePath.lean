/-!
# File paths

Absolute paths in their shortest form, as the names from the root on. A relative text is resolved
against a directory; `.` stands for a directory itself and `..` for its parent, where the root is
its own parent.
-/
namespace MemberOrigin.Cli

/-- An absolute path: the names of the directories on it and of its end. -/
structure FilePath where
  names : List String
deriving Repr, DecidableEq, Inhabited

namespace FilePath

def root : FilePath := ⟨[]⟩

/-- Goes one step along the names of a path. -/
def step (path : FilePath) (name : String) : FilePath :=
  if name.isEmpty || name == "." then path
  else if name == ".." then ⟨path.names.dropLast⟩
  else ⟨path.names ++ [name]⟩

/-- The names between the slashes of a text. -/
def split (text : String) : List String :=
  (text.toList.splitOn '/').map String.ofList

/-- What a text means in a directory. -/
def resolve (directory : FilePath) (text : String) : FilePath :=
  let start := if text.toList.head? == some '/' then root else directory
  (split text).foldl step start

def child (path : FilePath) (name : String) : FilePath :=
  ⟨path.names ++ [name]⟩

/-- The directory that holds what is at a path; the root is its own parent. -/
def parent (path : FilePath) : FilePath :=
  ⟨path.names.dropLast⟩

/-- A path that is not its own parent has a shorter one. -/
theorem length_parent_lt {path : FilePath} (moves : path.parent ≠ path) :
    path.parent.names.length < path.names.length := by
  have filled : path.names ≠ [] := by
    intro empty
    apply moves
    cases path
    simp_all [parent]
  have positive := List.length_pos_iff.mpr filled
  simp only [parent, List.length_dropLast]
  omega

/-- The last name, which the root does not have. -/
def fileName (path : FilePath) : String :=
  path.names.getLast?.getD ""

def text (path : FilePath) : String :=
  "/" ++ "/".intercalate path.names

end FilePath

/-- What stands at a path. -/
inductive Entry
  | file (content : String)
  /-- A directory, or a file that cannot be read. -/
  | unreadable
deriving Repr, DecidableEq, Inhabited

/-- The files that a run can see. -/
abbrev FileView := List (FilePath × Entry)

def FileView.find? (files : FileView) (path : FilePath) : Option Entry :=
  files.lookup path

def FileView.contains (files : FileView) (path : FilePath) : Bool :=
  (files.find? path).isSome

end MemberOrigin.Cli
