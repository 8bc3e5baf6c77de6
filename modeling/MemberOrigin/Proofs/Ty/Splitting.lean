import Mathlib.Data.List.TakeWhile
import MemberOrigin.Ty.Arguments

/-!
# Splitting what was joined

A text passes from one bracket depth to another if reading it there cuts nothing. Passing composes,
so that it is shown of a written type along its parts. Pieces that pass at depth zero and have no
blanks at their ends are found again after they were joined by commas.
-/
namespace MemberOrigin.Ty

open Text

theorem bracketStep_comma : bracketStep ',' = 0 := by decide

/-- Reading the text from one depth cuts nothing and ends at the other, whatever follows. -/
def Passes (before : Int) (text : List Char) (after : Int) : Prop :=
  ∀ rest, cutAtCommas before (text ++ rest) =
    (text ++ (cutAtCommas after rest).1, (cutAtCommas after rest).2)

/-- Reading the text at any depth that is not below zero cuts nothing and keeps the depth. -/
def Closed (text : List Char) : Prop :=
  ∀ depth : Int, 0 ≤ depth → Passes depth text depth

namespace Passes

theorem nil (depth : Int) : Passes depth [] depth := by
  intro rest
  simp

theorem append {a b c : Int} {left right : List Char} (first : Passes a left b)
    (second : Passes b right c) : Passes a (left ++ right) c := by
  intro rest
  rw [List.append_assoc, first, second, List.append_assoc]

theorem single {depth : Int} {c : Char} (uncut : c ≠ ',' ∨ depth ≠ 0) :
    Passes depth [c] (depth + bracketStep c) := by
  intro rest
  have stays : (c == ',' && depth == 0) = false := by
    rcases uncut with other | deep
    · simp [other]
    · simp [deep]
  simp only [List.singleton_append, cutAtCommas, stays, Bool.false_eq_true, if_false]

/-- A comma passes inside brackets. -/
theorem comma {depth : Int} (deep : 0 < depth) : Passes depth [','] depth := by
  have passes : Passes depth [','] (depth + bracketStep ',') := single (Or.inr (by omega))
  rwa [bracketStep_comma, Int.add_zero] at passes

/-- Characters that are neither brackets nor commas pass at any depth. -/
theorem of_plain {text : List Char} (depth : Int)
    (plain : ∀ c ∈ text, c ≠ ',' ∧ bracketStep c = 0) : Passes depth text depth := by
  induction text with
  | nil => exact nil depth
  | cons c rest ih =>
    obtain ⟨⟨comma, flat⟩, others⟩ := List.forall_mem_cons.mp plain
    have first : Passes depth [c] (depth + bracketStep c) := single (Or.inl comma)
    rw [flat, Int.add_zero] at first
    exact first.append (ih others)

end Passes

namespace Closed

theorem nil : Closed [] := fun depth _ => Passes.nil depth

theorem append {left right : List Char} (first : Closed left) (second : Closed right) :
    Closed (left ++ right) :=
  fun depth nonneg => (first depth nonneg).append (second depth nonneg)

theorem of_plain {text : List Char} (plain : ∀ c ∈ text, c ≠ ',' ∧ bracketStep c = 0) :
    Closed text :=
  fun depth _ => Passes.of_plain depth plain

theorem passes {text : List Char} (closed : Closed text) : Passes 0 text 0 :=
  closed 0 (by omega)

/-- What passes at the depths inside brackets is closed once the brackets are around it. -/
theorem bracket {opening closing : Char} {inside : List Char} (up : bracketStep opening = 1)
    (down : bracketStep closing = -1)
    (passes : ∀ depth : Int, 0 < depth → Passes depth inside depth) :
    Closed (opening :: inside ++ [closing]) := by
  intro depth nonneg
  -- a bracket changes the depth, which a comma does not
  have noComma (c : Char) (step : bracketStep c ≠ 0) : c ≠ ',' := by
    rintro rfl
    exact step (by decide)
  have enter : Passes depth [opening] (depth + bracketStep opening) :=
    Passes.single (Or.inl (noComma opening (by omega)))
  have leave : Passes (depth + 1) [closing] (depth + 1 + bracketStep closing) :=
    Passes.single (Or.inl (noComma closing (by omega)))
  rw [up] at enter
  rw [down, show depth + 1 + -1 = depth by omega] at leave
  exact (enter.append (passes (depth + 1) (by omega))).append leave

end Closed

/-- Below the surface commas pass as well, so that joined pieces do. -/
theorem Passes.intercalate {sep : List Char} {depth : Int} (deep : 0 < depth)
    (passes : Passes depth sep depth) {parts : List (List Char)}
    (closed : ∀ part ∈ parts, Closed part) : Passes depth (sep.intercalate parts) depth := by
  induction parts with
  | nil => exact Passes.nil depth
  | cons part rest ih =>
    obtain ⟨here, others⟩ := List.forall_mem_cons.mp closed
    have first := here depth (by omega)
    cases rest with
    | nil => simpa using first
    | cons next more =>
      rw [List.intercalate_cons_cons]
      exact (first.append passes).append (ih others)

/-- Joined pieces are cut at the commas between them; what follows a comma stays in front. -/
theorem cutAtCommas_intercalate {gap : List Char} (flat : Closed gap) {part : List Char}
    {rest : List (List Char)} (uncut : ∀ piece ∈ part :: rest, Passes 0 piece 0) :
    cutAtCommas 0 ((',' :: gap).intercalate (part :: rest)) = (part, rest.map (gap ++ ·)) := by
  induction rest generalizing part with
  | nil =>
    have whole := uncut part (by simp) []
    simpa [cutAtCommas] using whole
  | cons next more ih =>
    obtain ⟨here, others⟩ := List.forall_mem_cons.mp uncut
    have behind := ih others
    rw [List.intercalate_cons_cons, List.append_assoc, here]
    -- the comma is outside of brackets, so it ends the piece in front of it
    have cut : cutAtCommas 0 (',' :: gap ++ (',' :: gap).intercalate (next :: more)) =
        ([], (gap ++ next) :: more.map (gap ++ ·)) := by
      have gapped := flat 0 (by omega) ((',' :: gap).intercalate (next :: more))
      rw [behind] at gapped
      simp only [List.cons_append, cutAtCommas, bracketStep_comma, Int.add_zero, gapped,
        beq_self_eq_true, Bool.and_self, if_true]
    rw [cut, List.append_nil, List.map_cons]

theorem trim_append_of_blank {gap text : List Char} (blank : ∀ c ∈ gap, isBlank c = true) :
    trim (gap ++ text) = trim text := by
  simp only [trim, trimStart, List.dropWhile_append_of_pos blank]

/-- Splitting gives joined pieces back, if none of them is empty, has a blank at an end, or would
be cut itself. -/
theorem splitArguments_intercalate (gap : List Char) (blank : ∀ c ∈ gap, isBlank c = true)
    {parts : List (List Char)} (uncut : ∀ part ∈ parts, Passes 0 part 0)
    (trimmed : ∀ part ∈ parts, trim part = part) (filled : ∀ part ∈ parts, part ≠ []) :
    splitArguments ((',' :: gap).intercalate parts) = parts := by
  cases parts with
  | nil => simp [splitArguments, pieces, cutAtCommas, trim, trimStart, trimEnd]
  | cons part rest =>
    have flat : Closed gap := by
      refine Closed.of_plain fun c member => ⟨?_, ?_⟩
      · rintro rfl
        exact absurd (blank _ member) (by decide)
      · have spaced := blank c member
        -- no blank is a bracket
        by_contra bent
        have bracket : c = '[' ∨ c = '(' ∨ c = ']' ∨ c = ')' := by
          simp only [bracketStep] at bent
          grind
        rcases bracket with rfl | rfl | rfl | rfl <;> exact absurd spaced (by decide)
    have found : (pieces ((',' :: gap).intercalate (part :: rest))).map trim = part :: rest := by
      simp only [pieces, cutAtCommas_intercalate flat uncut, List.map_cons, List.map_map,
        trimmed part List.mem_cons_self, List.cons.injEq, true_and]
      rw [List.map_congr_left (g := id), List.map_id]
      intro piece member
      simp only [Function.comp_apply, trim_append_of_blank blank, id_eq]
      exact trimmed piece (List.mem_cons_of_mem _ member)
    have last : ((part :: rest).getLast?.getD []).isEmpty = false := by
      rw [List.getLast?_eq_some_getLast (List.cons_ne_nil part rest), Option.getD_some]
      simpa using filled _ (List.getLast_mem (List.cons_ne_nil part rest))
    simp only [splitArguments, found, last, Bool.false_eq_true, if_false]

end MemberOrigin.Ty
