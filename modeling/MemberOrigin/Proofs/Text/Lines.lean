import Mathlib.Data.List.Basic
import MemberOrigin.Text.Lines

/-!
# Shifted texts

`shift` moves the further lines of a text to the right and leaves the first one where it is, which
is what a text needs whose first line continues another one. A text without a newline is its own
shift, a shift goes through concatenation, and two shifts are one by both margins together. Indenting
a text is putting the margin in front of its shift.
-/
namespace MemberOrigin.Text

/-- The text with `margin` behind every newline. -/
def shift (margin text : String) : String :=
  String.ofList (text.toList.flatMap fun c => if c = '\n' then '\n' :: margin.toList else [c])

/-- The text stands on one line. -/
def OneLine (text : String) : Prop :=
  '\n' ∉ text.toList

instance (text : String) : Decidable (OneLine text) :=
  inferInstanceAs (Decidable ('\n' ∉ text.toList))

/-! ### Texts on one line -/

theorem OneLine.append {left right : String} (onLeft : OneLine left) (onRight : OneLine right) :
    OneLine (left ++ right) := by
  simpa [OneLine] using ⟨onLeft, onRight⟩

theorem OneLine.intercalate {separator : String} {texts : List String}
    (between : OneLine separator) (each : ∀ text ∈ texts, OneLine text) :
    OneLine (separator.intercalate texts) := by
  induction texts with
  | nil => simp [OneLine]
  | cons first rest ih =>
    have onRest := ih fun text member => each text (List.mem_cons_of_mem _ member)
    cases rest with
    | nil => simpa using each first List.mem_cons_self
    | cons second rest =>
      rw [String.intercalate_cons_cons]
      exact ((each first List.mem_cons_self).append between).append onRest

/-- A text of characters that are no newline stands on one line. -/
theorem oneLine_ofList {text : List Char} (each : ∀ c ∈ text, c ≠ '\n') :
    OneLine (String.ofList text) := by
  intro member
  rw [String.toList_ofList] at member
  exact each _ member rfl

/-! ### Shifting -/

variable {margin : String}

theorem shift_append {left right : String} :
    shift margin (left ++ right) = shift margin left ++ shift margin right := by
  simp [shift, String.ofList_append]

theorem OneLine.shift_eq {text : String} (oneLine : OneLine text) : shift margin text = text := by
  have alone : text.toList.flatMap
      (fun c => if c = '\n' then '\n' :: margin.toList else [c]) = text.toList.flatMap ([·]) := by
    refine List.flatMap_congr fun c member => if_neg ?_
    rintro rfl
    exact oneLine member
  rw [shift, alone, List.flatMap_singleton', String.ofList_toList]

theorem shift_newline : shift margin "\n" = "\n" ++ margin := by
  rw [← String.ofList_toList (s := margin)]
  simp [shift]

/-- The margin of the inner shift stands behind that of the outer one. -/
theorem OneLine.shift_shift {inner : String} (oneLine : OneLine inner) {text : String} :
    shift margin (shift inner text) = shift (margin ++ inner) text := by
  have kept : shift margin inner = inner := oneLine.shift_eq
  have behind : inner.toList.flatMap
      (fun c => if c = '\n' then '\n' :: margin.toList else [c]) = inner.toList := by
    simpa [shift] using congrArg String.toList kept
  simp only [shift, String.toList_ofList, List.flatMap_assoc]
  refine congrArg String.ofList (List.flatMap_congr fun c _ => ?_)
  split
  next newline => simp [behind]
  next other => simp [other]

/-! ### Lines -/

theorem unlines_cons {first : String} {rest : List String} (nonempty : rest ≠ []) :
    unlines (first :: rest) = first ++ "\n" ++ unlines rest :=
  String.intercalate_cons_of_ne_nil nonempty

/-- The first line keeps its place, the others move behind the margin. -/
theorem shift_unlines {first : String} {rest : List String} :
    shift margin (unlines (first :: rest)) =
      unlines (shift margin first :: rest.map fun line => margin ++ shift margin line) := by
  -- for every first line, since each line in turn becomes the first one
  induction rest generalizing first with
  | nil => simp [unlines]
  | cons second rest ih =>
    rw [unlines_cons (List.cons_ne_nil _ _), shift_append, shift_append, ih, shift_newline,
      List.map_cons, unlines_cons (List.cons_ne_nil _ _)]
    simp only [unlines, String.intercalate_cons_append, String.append_assoc]

theorem lines_ne_nil (text : String) : lines text ≠ [] := by
  simp [lines]

theorem unlines_lines (text : String) : unlines (lines text) = text := by
  refine String.toList_inj.mp ?_
  rw [unlines, String.toList_intercalate, lines, List.map_map]
  simp [Function.comp_def]

theorem not_mem_of_mem_splitOn {α : Type} [DecidableEq α] {separator : α} {text part : List α}
    (member : part ∈ text.splitOn separator) : separator ∉ part := by
  induction text generalizing part with
  | nil => simp_all
  | cons first rest ih =>
    rw [List.splitOn_cons_eq_if_modifyHead] at member
    split at member
    · rcases List.mem_cons.mp member with rfl | member
      · exact List.not_mem_nil
      · exact ih member
    next other =>
      -- the character joins the first part of the rest
      obtain ⟨head, tail, split⟩ := List.exists_cons_of_ne_nil (List.splitOn_ne_nil separator rest)
      rw [split] at ih member
      rcases List.mem_cons.mp member with rfl | member
      · rintro (_ | ⟨_, inside⟩)
        · exact other BEq.rfl
        · exact ih List.mem_cons_self inside
      · exact ih (List.mem_cons_of_mem _ member)

theorem oneLine_of_mem_lines {text line : String} (member : line ∈ lines text) : OneLine line := by
  obtain ⟨part, split, rfl⟩ := List.mem_map.mp member
  simpa [OneLine] using not_mem_of_mem_splitOn split

/-- Indenting is putting the margin in front of the shifted text. -/
theorem indent_eq_append_shift {text : String} : indent margin text = margin ++ shift margin text := by
  obtain ⟨first, rest, split⟩ := List.exists_cons_of_ne_nil (lines_ne_nil text)
  have oneLine : ∀ line ∈ first :: rest, OneLine line := by
    intro line member
    exact oneLine_of_mem_lines (split ▸ member)
  have kept : (rest.map fun line => margin ++ shift margin line) = rest.map (margin ++ ·) :=
    List.map_congr_left fun line member => by
      rw [(oneLine line (List.mem_cons_of_mem _ member)).shift_eq]
  calc indent margin text
      = unlines ((margin ++ first) :: rest.map (margin ++ ·)) := by rw [indent, split, List.map_cons]
    _ = margin ++ unlines (first :: rest.map (margin ++ ·)) := String.intercalate_cons_append
    _ = margin ++ shift margin (unlines (first :: rest)) := by
      rw [shift_unlines, kept, (oneLine first List.mem_cons_self).shift_eq]
    _ = margin ++ shift margin text := by rw [← split, unlines_lines]

end MemberOrigin.Text
