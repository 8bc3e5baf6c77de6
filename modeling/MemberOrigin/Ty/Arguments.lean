import MemberOrigin.Text.Blank

/-!
# Splitting arguments

Cuts a text at the commas outside all brackets. The depth of a place is the number of opening
brackets before it less the number of closing ones; it may fall below zero, and only a comma at
depth zero cuts.
-/
namespace MemberOrigin.Ty

/-- How a character changes the bracket depth. -/
def bracketStep (c : Char) : Int :=
  if c == '[' || c == '(' then 1 else if c == ']' || c == ')' then -1 else 0

/-- The text up to the first cut and the pieces behind it. -/
def cutAtCommas : Int → List Char → List Char × List (List Char)
  | _, [] => ([], [])
  | depth, c :: rest =>
    let (first, others) := cutAtCommas (depth + bracketStep c) rest
    if c == ',' && depth == 0 then ([], first :: others) else (c :: first, others)

/-- The pieces between the cuts. -/
def pieces (text : List Char) : List (List Char) :=
  let (first, others) := cutAtCommas 0 text
  first :: others

/-- The arguments of a list: the trimmed pieces, where a blank last piece is none. -/
def splitArguments (text : List Char) : List (List Char) :=
  let trimmed := (pieces text).map Text.trim
  if (trimmed.getLast?.getD []).isEmpty then trimmed.dropLast else trimmed

theorem length_cutAtCommas (depth : Int) (text : List Char) :
    (cutAtCommas depth text).1.length ≤ text.length ∧
      ∀ piece ∈ (cutAtCommas depth text).2, piece.length ≤ text.length := by
  induction text generalizing depth with
  | nil => simp [cutAtCommas]
  | cons c rest ih =>
    obtain ⟨first, others⟩ := ih (depth + bracketStep c)
    simp only [cutAtCommas]
    split
    · refine ⟨by simp, fun piece member => ?_⟩
      rcases List.mem_cons.mp member with rfl | member
      · simp only [List.length_cons]; omega
      · have := others piece member
        simp only [List.length_cons]; omega
    · refine ⟨by simp only [List.length_cons]; omega, fun piece member => ?_⟩
      have := others piece member
      simp only [List.length_cons]; omega

theorem length_pieces_le {text piece : List Char} (member : piece ∈ pieces text) :
    piece.length ≤ text.length := by
  have bound := length_cutAtCommas 0 text
  simp only [pieces] at member
  rcases List.mem_cons.mp member with rfl | member
  · exact bound.1
  · exact bound.2 piece member

/-- No argument is longer than the text it is cut from. -/
theorem length_splitArguments_le {text piece : List Char} (member : piece ∈ splitArguments text) :
    piece.length ≤ text.length := by
  have inTrimmed : piece ∈ (pieces text).map Text.trim := by
    simp only [splitArguments] at member
    split at member
    · exact (List.dropLast_sublist _).subset member
    · exact member
  obtain ⟨whole, inPieces, rfl⟩ := List.mem_map.mp inTrimmed
  exact Nat.le_trans (Text.length_trim_le whole) (length_pieces_le inPieces)

end MemberOrigin.Ty
