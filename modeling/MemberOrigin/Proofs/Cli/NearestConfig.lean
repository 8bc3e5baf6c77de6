import Mathlib.Data.List.Infix
import MemberOrigin.Cli.Config

/-!
# The search for a configuration file

## Main result

`find?_nearest`: from every directory and over every set of files the search comes to an end, after
at most one look into each directory up to the root. It finds the file of the deepest enclosing
directory that has one, and nothing exactly if no enclosing directory has one.

## Proof strategy

What encloses a directory is the directory itself or encloses its parent. Every turn of the search
goes to a shorter path, and leaves behind a directory without a file. Induction on the search itself
carries both through all its turns.
-/
namespace MemberOrigin.Cli

/-! ### Enclosing directories -/

namespace FilePath

/-- The directory is the one at the path or one of its ancestors. -/
def Encloses (directory path : FilePath) : Prop :=
  directory.names <+: path.names

theorem encloses_self (path : FilePath) : path.Encloses path :=
  List.prefix_refl path.names

/-- What encloses a directory is found one step at a time, from parent to parent. -/
theorem encloses_iff {directory path : FilePath} :
    directory.Encloses path ↔ directory = path ∨ directory.Encloses path.parent := by
  obtain ⟨names⟩ := directory
  obtain ⟨others⟩ := path
  simp only [Encloses, parent, FilePath.mk.injEq]
  constructor
  · intro front
    -- the parent drops the last name, and a prefix ends with it or in front of it
    rcases List.eq_nil_or_concat others with rfl | ⟨before, last, rfl⟩
    · exact .inl (List.prefix_nil.mp front)
    · rw [List.concat_eq_append] at front ⊢
      rw [List.dropLast_concat]
      exact List.prefix_concat_iff.mp front
  · rintro (rfl | front)
    · exact List.prefix_refl names
    · exact front.trans (List.dropLast_prefix others)

/-- Only the root is its own parent, and only itself encloses it. -/
theorem encloses_iff_of_parent_eq {directory path : FilePath} (top : path.parent = path) :
    directory.Encloses path ↔ directory = path := by
  -- a path with names is longer than its parent
  have empty : path.names = [] := by
    by_contra filled
    have shorter := congrArg (fun other : FilePath => other.names.length) top
    have positive := List.length_pos_iff.mpr filled
    simp only [parent, List.length_dropLast] at shorter
    omega
  constructor
  · intro encloses
    rw [Encloses, empty, List.prefix_nil] at encloses
    cases directory
    cases path
    simp_all
  · rintro rfl
    exact encloses_self directory

end FilePath

namespace Config

variable {files : FileView} {start directory : FilePath}

/-- Whether a directory has a configuration file. -/
def HasFile (files : FileView) (directory : FilePath) : Prop :=
  files.contains (directory.child fileName) = true

/-! ### Turns of the search -/

theorem find?_of_hasFile (has : HasFile files start) :
    find? files start = some (start.child fileName) := by
  rw [find?]
  exact if_pos has

theorem find?_of_top (lacks : ¬ HasFile files start) (top : start.parent = start) :
    find? files start = none := by
  rw [find?, if_pos top]
  exact if_neg lacks

theorem find?_of_moves (lacks : ¬ HasFile files start) (moves : start.parent ≠ start) :
    find? files start = find? files start.parent := by
  rw [find?, if_neg moves]
  exact if_neg lacks

/-- The search looks at the paths where a configuration file can be, and at no others. -/
theorem find?_eq_find?_candidates (files : FileView) (start : FilePath) :
    find? files start = (candidates start).find? files.contains := by
  -- from the innermost name on, which is the order in which the search goes up
  obtain ⟨names, rfl⟩ : ∃ names : List String, start = ⟨names.reverse⟩ :=
    ⟨start.names.reverse, by rw [List.reverse_reverse]⟩
  simp only [candidates, List.reverse_reverse]
  induction names with
  | nil =>
    by_cases has : HasFile files ⟨[]⟩
    · exact (find?_of_hasFile has).trans (List.find?_cons_of_pos has).symm
    · rw [ancestors, List.map_singleton, List.find?_singleton]
      exact (find?_of_top has rfl).trans (if_neg has).symm
  | cons name rest ih =>
    rw [ancestors, List.map_cons]
    by_cases has : HasFile files ⟨(name :: rest).reverse⟩
    · rw [List.find?_cons_of_pos has]
      exact find?_of_hasFile has
    · have up : FilePath.parent ⟨(name :: rest).reverse⟩ = ⟨rest.reverse⟩ := by
        simp [FilePath.parent]
      rw [List.find?_cons_of_neg has, ← ih, ← up]
      apply find?_of_moves has
      rw [up]
      simp

/-! ### The search as a run -/

/-- The search from a directory, turn by turn: the directories it looks into, and how it ends. -/
inductive Search (files : FileView) : FilePath → List FilePath → Option FilePath → Prop
  | found {directory : FilePath} (has : HasFile files directory) :
      Search files directory [directory] (some (directory.child fileName))
  | exhausted {directory : FilePath} (lacks : ¬ HasFile files directory)
      (top : directory.parent = directory) : Search files directory [directory] none
  | up {directory : FilePath} {visited : List FilePath} {result : Option FilePath}
      (lacks : ¬ HasFile files directory) (moves : directory.parent ≠ directory)
      (goesOn : Search files directory.parent visited result) :
      Search files directory (directory :: visited) result

/-- The search ends with this result, after one look at most into each enclosing directory. -/
theorem exists_search (files : FileView) (start : FilePath) :
    ∃ visited, Search files start visited (find? files start) ∧
      visited.length ≤ start.names.length + 1 := by
  induction start using find?.induct files with
  | case1 directory has =>
    rw [find?_of_hasFile has]
    exact ⟨_, .found has, by simp⟩
  | case2 directory lacks top =>
    rw [find?_of_top lacks top]
    exact ⟨_, .exhausted lacks top, by simp⟩
  | case3 directory lacks moves ih =>
    obtain ⟨visited, goesOn, bound⟩ := ih
    rw [find?_of_moves lacks moves]
    -- the parent has one name less, which pays for this look
    have shorter := FilePath.length_parent_lt moves
    refine ⟨directory :: visited, .up lacks moves goesOn, ?_⟩
    rw [List.length_cons]
    omega

/-- The directories in front of the last one have no file, whatever the result is. -/
theorem Search.eq_find? {visited : List FilePath} {result : Option FilePath}
    (search : Search files start visited result) : result = find? files start := by
  induction search with
  | found has => exact (find?_of_hasFile has).symm
  | exhausted lacks top => exact (find?_of_top lacks top).symm
  | up lacks moves _ ih => exact ih.trans (find?_of_moves lacks moves).symm

/-! ### The nearest file -/

/-- The deepest of the directories around the start that have a file. -/
structure Nearest (files : FileView) (start directory : FilePath) : Prop where
  encloses : directory.Encloses start
  has : HasFile files directory
  deepest : ∀ other, other.Encloses start → HasFile files other →
    other.names.length ≤ directory.names.length

theorem Nearest.of_hasFile (has : HasFile files start) : Nearest files start start where
  encloses := start.encloses_self
  has := has
  deepest _ encloses _ := encloses.length_le

/-- A directory without a file does not matter for what is nearest to it. -/
theorem nearest_parent_iff (lacks : ¬ HasFile files start) :
    Nearest files start.parent directory ↔ Nearest files start directory := by
  -- what encloses the directory and has a file is not the directory itself
  have others (other : FilePath) (has : HasFile files other) :
      other.Encloses start ↔ other.Encloses start.parent := by
    rw [FilePath.encloses_iff]
    refine or_iff_right ?_
    rintro rfl
    exact lacks has
  constructor
  · rintro ⟨encloses, has, deepest⟩
    exact ⟨(others _ has).mpr encloses, has, fun other around found =>
      deepest other ((others other found).mp around) found⟩
  · rintro ⟨encloses, has, deepest⟩
    exact ⟨(others _ has).mp encloses, has, fun other around found =>
      deepest other ((others other found).mpr around) found⟩

theorem Nearest.unique {other : FilePath} (nearest : Nearest files start directory)
    (again : Nearest files start other) : directory = other := by
  have sameLength : directory.names.length = other.names.length :=
    Nat.le_antisymm (again.deepest _ nearest.encloses nearest.has)
      (nearest.deepest _ again.encloses again.has)
  -- of two prefixes of one path the shorter is a prefix of the longer
  have front := List.prefix_of_prefix_length_le nearest.encloses again.encloses sameLength.le
  have sameNames := front.eq_of_length sameLength
  cases directory
  cases other
  simp_all

theorem find?_eq_some_iff {path : FilePath} :
    find? files start = some path ↔
      ∃ directory, Nearest files start directory ∧ path = directory.child fileName := by
  induction start using find?.induct files with
  | case1 directory has =>
    rw [find?_of_hasFile has, Option.some.injEq]
    constructor
    · rintro rfl
      exact ⟨directory, .of_hasFile has, rfl⟩
    · rintro ⟨nearest, isNearest, rfl⟩
      rw [(Nearest.of_hasFile has).unique isNearest]
  | case2 directory lacks top =>
    -- the search ends at the root, which only the root encloses
    rw [find?_of_top lacks top]
    refine iff_of_false (by simp) ?_
    rintro ⟨nearest, ⟨encloses, has, _⟩, _⟩
    obtain rfl := (FilePath.encloses_iff_of_parent_eq top).mp encloses
    exact lacks has
  | case3 directory lacks moves ih =>
    rw [find?_of_moves lacks moves, ih]
    simp only [nearest_parent_iff lacks]

theorem find?_eq_none_iff :
    find? files start = none ↔ ∀ directory, directory.Encloses start → ¬ HasFile files directory := by
  induction start using find?.induct files with
  | case1 directory has =>
    rw [find?_of_hasFile has]
    exact iff_of_false (by simp) fun none => none directory directory.encloses_self has
  | case2 directory lacks top =>
    rw [find?_of_top lacks top]
    refine iff_of_true rfl fun other encloses => ?_
    rwa [(FilePath.encloses_iff_of_parent_eq top).mp encloses]
  | case3 directory lacks moves ih =>
    rw [find?_of_moves lacks moves, ih]
    simp only [@FilePath.encloses_iff _ directory, forall_eq_or_imp]
    exact (and_iff_right lacks).symm

/-! ### Main theorem -/

/-- From every directory the search for a configuration file ends, with one result only, after one
look at most into each directory up to the root. It gives the file of the deepest enclosing directory
that has one, and none exactly if no enclosing directory has one. -/
theorem find?_nearest (files : FileView) (start : FilePath) :
    (∃ visited, Search files start visited (find? files start) ∧
      visited.length ≤ start.names.length + 1) ∧
    (∀ visited result, Search files start visited result → result = find? files start) ∧
    (∀ path, find? files start = some path ↔
      ∃ directory, Nearest files start directory ∧ path = directory.child fileName) ∧
    (find? files start = none ↔
      ∀ directory, directory.Encloses start → ¬ HasFile files directory) :=
  ⟨exists_search files start, fun _ _ search => search.eq_find?, fun _ => find?_eq_some_iff,
    find?_eq_none_iff⟩

/-- Configuration files in the root and in one directory. -/
def twoConfigs : FileView :=
  [(⟨["recordlens.json"]⟩, .file ""), (⟨["work", "recordlens.json"]⟩, .unreadable)]

/-- From two levels below the directory its file is found, and without files nothing is. -/
theorem find?_nearest_twoConfigs :
    (∃ visited, Search twoConfigs ⟨["work", "dumps", "old"]⟩ visited
        (some ⟨["work", "recordlens.json"]⟩) ∧ visited.length ≤ 4) ∧
      Nearest twoConfigs ⟨["work", "dumps", "old"]⟩ ⟨["work"]⟩ ∧
      find? [] ⟨["work", "dumps", "old"]⟩ = none := by
  have found : find? twoConfigs ⟨["work", "dumps", "old"]⟩ = some ⟨["work", "recordlens.json"]⟩ := by
    rw [find?_eq_find?_candidates]
    decide
  obtain ⟨ends, -, some_iff, -⟩ := find?_nearest twoConfigs ⟨["work", "dumps", "old"]⟩
  rw [found] at ends
  obtain ⟨⟨names⟩, nearest, same⟩ := (some_iff _).mp found
  have names_eq : ["work"] ++ [fileName] = names ++ [fileName] := congrArg FilePath.names same
  rw [← List.append_cancel_right names_eq] at nearest
  refine ⟨ends, nearest, (find?_nearest [] _).2.2.2.mpr fun directory _ has => ?_⟩
  cases has

end Config

end MemberOrigin.Cli
