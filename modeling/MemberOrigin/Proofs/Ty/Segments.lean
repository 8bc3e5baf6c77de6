import MemberOrigin.Proofs.Text.Words
import MemberOrigin.Proofs.Ty.Splitting

/-!
# Where an argument list is cut

A comma cuts if as many brackets are opened as closed before it. `Segments` says so by counting
brackets, without reading the text from the left: the segments joined by commas are the text, and a
comma stands between two of them exactly if the brackets before it are level.

The cutter is followed in both directions. Each branch of its step keeps the relation, so that what
it cuts are segments; and the first segment of any such list passes the cutter whole, so that there
is one list only. `splitArguments_segments` puts this together with the trimming.
-/
namespace MemberOrigin.Ty

open Text

/-! ### Counting brackets -/

/-- The opening brackets of a text less its closing ones. -/
def bracketDepth (text : List Char) : Int :=
  (text.count '[' + text.count '(' : Int) - (text.count ']' + text.count ')')

@[simp] theorem bracketDepth_nil : bracketDepth [] = 0 := rfl

theorem bracketDepth_cons (c : Char) (text : List Char) :
    bracketDepth (c :: text) = bracketStep c + bracketDepth text := by
  simp only [bracketDepth, bracketStep, List.count_cons, Bool.or_eq_true, beq_iff_eq]
  grind

theorem bracketDepth_append (left right : List Char) :
    bracketDepth (left ++ right) = bracketDepth left + bracketDepth right := by
  simp only [bracketDepth, List.count_append]
  omega

/-- No comma of a text that starts at the depth is level. -/
def Uncut (depth : Int) (text : List Char) : Prop :=
  ∀ front back, text = front ++ ',' :: back → depth + bracketDepth front ≠ 0

theorem uncut_nil (depth : Int) : Uncut depth [] := by
  intro front back whole
  simp at whole

theorem uncut_cons {depth : Int} {c : Char} {text : List Char} :
    Uncut depth (c :: text) ↔ (c ≠ ',' ∨ depth ≠ 0) ∧ Uncut (depth + bracketStep c) text := by
  constructor
  · intro uncut
    refine ⟨?_, fun front back whole => ?_⟩
    · by_cases comma : c = ','
      · exact Or.inr (by simpa using uncut [] text (by rw [comma]; rfl))
      · exact Or.inl comma
    · have deep := uncut (c :: front) back (by rw [whole]; rfl)
      rwa [bracketDepth_cons, ← Int.add_assoc] at deep
  · rintro ⟨here, behind⟩ front back whole
    -- the comma is the first character, or one of the text behind it
    cases front with
    | nil =>
      obtain ⟨rfl, -⟩ := List.cons.inj whole
      simpa using here
    | cons first front =>
      obtain ⟨rfl, rest⟩ := List.cons.inj whole
      rw [bracketDepth_cons, ← Int.add_assoc]
      exact behind front back rest

instance decidableUncut : (depth : Int) → (text : List Char) → Decidable (Uncut depth text)
  | depth, [] => isTrue (uncut_nil depth)
  | depth, c :: text =>
    have := decidableUncut (depth + bracketStep c) text
    decidable_of_iff _ uncut_cons.symm

/-- The cutter runs over a text without level commas and ends at the depth that the count gives. -/
theorem Uncut.passes {depth : Int} {text : List Char} (uncut : Uncut depth text) :
    Passes depth text (depth + bracketDepth text) := by
  induction text generalizing depth with
  | nil => simpa using Passes.nil depth
  | cons c rest ih =>
    obtain ⟨here, behind⟩ := uncut_cons.mp uncut
    rw [bracketDepth_cons, ← Int.add_assoc]
    exact (Passes.single here).append (ih behind)

/-! ### Segments -/

theorem intercalate_cons {first : List Char} {others : List (List Char)} (some : others ≠ []) :
    [','].intercalate (first :: others) = first ++ ',' :: [','].intercalate others := by
  rw [List.intercalate_cons_of_ne_nil some, List.append_assoc, List.singleton_append]

theorem intercalate_cons_head (c : Char) (first : List Char) (others : List (List Char)) :
    [','].intercalate ((c :: first) :: others) = c :: [','].intercalate (first :: others) := by
  cases others with
  | nil => simp
  | cons next more => simp [List.intercalate_cons_cons]

/-- A comma between two of the segments has the one text before it and the other behind it. -/
def CutBetween (segments : List (List Char)) (front back : List Char) : Prop :=
  ∃ left right, left ≠ [] ∧ right ≠ [] ∧ segments = left ++ right ∧
    front = [','].intercalate left ∧ back = [','].intercalate right

theorem cutBetween_cons {first front back : List Char} {others : List (List Char)} :
    CutBetween (first :: others) front back ↔
      (others ≠ [] ∧ front = first ∧ back = [','].intercalate others) ∨
        ∃ behind, front = first ++ ',' :: behind ∧ CutBetween others behind back := by
  constructor
  · rintro ⟨left, right, some, others, split, rfl, rfl⟩
    obtain ⟨head, left, rfl⟩ := List.exists_cons_of_ne_nil some
    obtain ⟨rfl, rfl⟩ := List.cons.inj split
    -- the cut is behind the first piece, or behind a later one
    cases left with
    | nil => exact Or.inl ⟨others, by simp, rfl⟩
    | cons next more =>
      have several := List.cons_ne_nil next more
      exact Or.inr ⟨_, intercalate_cons several, next :: more, right, several, others, rfl, rfl, rfl⟩
  · rintro (⟨some, rfl, rfl⟩ | ⟨behind, rfl, left, right, some, others, rfl, rfl, rfl⟩)
    · exact ⟨[front], others, by simp, some, rfl, by simp, rfl⟩
    · exact ⟨first :: left, right, by simp, others, rfl, (intercalate_cons some).symm, rfl⟩

/-- The parts of a text, which starts at the depth, between its level commas. -/
structure Segments (depth : Int) (text : List Char) (segments : List (List Char)) : Prop where
  filled : segments ≠ []
  joined : [','].intercalate segments = text
  cuts : ∀ front back, text = front ++ ',' :: back →
    (depth + bracketDepth front = 0 ↔ CutBetween segments front back)

namespace Segments

theorem nil (depth : Int) : Segments depth [] [[]] :=
  ⟨by simp, by simp, fun front back whole => by simp at whole⟩

/-- A level comma in front begins a segment. -/
theorem cons_cut {text : List Char} {segments : List (List Char)}
    (behind : Segments 0 text segments) : Segments 0 (',' :: text) ([] :: segments) := by
  refine ⟨by simp, by rw [intercalate_cons behind.filled, behind.joined]; rfl, ?_⟩
  intro front back whole
  -- the new comma cuts; any other one is a comma of the text behind it, at the same depth
  cases front with
  | nil =>
    obtain ⟨-, rfl⟩ := List.cons.inj whole
    exact iff_of_true (by simp)
      (cutBetween_cons.mpr (Or.inl ⟨behind.filled, rfl, behind.joined.symm⟩))
  | cons c front =>
    obtain ⟨rfl, rest⟩ := List.cons.inj whole
    rw [bracketDepth_cons, bracketStep_comma, Int.zero_add, behind.cuts front back rest]
    simp [cutBetween_cons]

/-- Any other character in front belongs to the first segment. -/
theorem cons_kept {depth : Int} {c : Char} {text first : List Char} {others : List (List Char)}
    (kept : c ≠ ',' ∨ depth ≠ 0)
    (behind : Segments (depth + bracketStep c) text (first :: others)) :
    Segments depth (c :: text) ((c :: first) :: others) := by
  refine ⟨by simp, by rw [intercalate_cons_head, behind.joined], ?_⟩
  intro front back whole
  cases front with
  | nil =>
    obtain ⟨rfl, -⟩ := List.cons.inj whole
    exact iff_of_false (by simpa using kept) (by simp [cutBetween_cons])
  | cons head front =>
    obtain ⟨rfl, rest⟩ := List.cons.inj whole
    rw [bracketDepth_cons, ← Int.add_assoc, behind.cuts front back rest]
    simp [cutBetween_cons]

end Segments

/-- What the cutter gives are segments. -/
theorem segments_cutAtCommas (depth : Int) (text : List Char) :
    Segments depth text ((cutAtCommas depth text).1 :: (cutAtCommas depth text).2) := by
  induction text generalizing depth with
  | nil => exact Segments.nil depth
  | cons c rest ih =>
    have behind := ih (depth + bracketStep c)
    by_cases level : c = ',' ∧ depth = 0
    · obtain ⟨rfl, rfl⟩ := level
      simpa [cutAtCommas] using behind.cons_cut
    · have kept : c ≠ ',' ∨ depth ≠ 0 := not_and_or.mp level
      simpa [cutAtCommas, level] using behind.cons_kept kept

namespace Segments

variable {depth : Int} {text first next : List Char} {others : List (List Char)}

/-- A level comma in the first segment would end it earlier. -/
theorem uncut_head (segments : Segments depth text (first :: others)) : Uncut depth first := by
  rintro front back rfl level
  obtain ⟨rest, text_eq⟩ : front ++ ',' :: back <+: text := by
    rw [← segments.joined]
    cases others with
    | nil => simp
    | cons next more => simp [List.intercalate_cons_cons]
  have cut := (segments.cuts front (back ++ rest) (by simp [← text_eq])).mp level
  -- what stands in front of a cut begins with the whole first segment, of which it is a part here
  rcases cutBetween_cons.mp cut with ⟨-, shorter, -⟩ | ⟨behind, shorter, -⟩
  · simp at shorter
  · have lengths := congrArg List.length shorter
    simp only [List.length_append, List.length_cons] at lengths
    omega

theorem level_head (segments : Segments depth text (first :: next :: others)) :
    depth + bracketDepth first = 0 := by
  have some := List.cons_ne_nil next others
  have joined := segments.joined
  rw [intercalate_cons some] at joined
  exact (segments.cuts first _ joined.symm).mpr (cutBetween_cons.mpr (Or.inl ⟨some, rfl, rfl⟩))

/-- The segments behind the first comma are those of the text behind it. -/
theorem tail (segments : Segments depth text (first :: next :: others)) :
    Segments 0 ([','].intercalate (next :: others)) (next :: others) := by
  refine ⟨by simp, rfl, fun front back whole => ?_⟩
  have joined := segments.joined
  rw [intercalate_cons (List.cons_ne_nil next others), whole] at joined
  -- the first segment and its comma are level, so they change neither depth nor cut
  have cut := segments.cuts (first ++ ',' :: front) back (by simp [← joined])
  rw [bracketDepth_append, bracketDepth_cons, bracketStep_comma, Int.zero_add, ← Int.add_assoc,
    segments.level_head] at cut
  rw [cut, cutBetween_cons]
  simp

/-- The cutter finds every list of segments. -/
theorem cutAtCommas_eq (segments : Segments depth text (first :: others)) :
    cutAtCommas depth text = (first, others) := by
  -- along the segments: each one passes, and behind its comma the cutter starts again at depth zero
  induction others generalizing depth text first with
  | nil =>
    have whole := segments.uncut_head.passes []
    rw [← segments.joined]
    simpa [cutAtCommas] using whole
  | cons next more ih =>
    have behind := ih segments.tail
    have passed := segments.uncut_head.passes (',' :: [','].intercalate (next :: more))
    rw [← segments.joined, intercalate_cons (List.cons_ne_nil next more), passed,
      segments.level_head]
    simp [cutAtCommas, behind, bracketStep_comma]

end Segments

/-- The pieces of a text are its one list of segments. -/
theorem segments_iff {text : List Char} {segments : List (List Char)} :
    Segments 0 text segments ↔ segments = pieces text := by
  constructor
  · intro cut
    obtain ⟨first, others, rfl⟩ := List.exists_cons_of_ne_nil cut.filled
    rw [pieces, cut.cutAtCommas_eq]
  · rintro rfl
    exact segments_cutAtCommas 0 text

/-! ### Arguments -/

theorem splitArguments_of_pieces {text last : List Char} {front : List (List Char)}
    (cut : pieces text = front ++ [last]) :
    splitArguments text = front.map trim ++ if last.all isBlank then [] else [trim last] := by
  simp only [splitArguments, cut, List.map_append, List.map_singleton, List.getLast?_concat,
    Option.getD_some, List.isEmpty_iff, List.dropLast_concat, trim_eq_nil_iff]
  split
  · rw [List.append_nil]
  · rfl

/-- A text that stands for one argument of a list. It may close brackets before it opens them. -/
structure WholeArgument (text : List Char) : Prop where
  level : bracketDepth text = 0
  uncut : Uncut 0 text
  trimmed : trim text = text
  filled : text ≠ []

theorem WholeArgument.passes {text : List Char} (argument : WholeArgument text) :
    Passes 0 text 0 := by
  have uncut := argument.uncut.passes
  rwa [argument.level, Int.add_zero] at uncut

/-- Every text has one list of segments between its level commas, and splitting trims them; only a
last one that is blank is left out, any other blank one becomes an empty argument. Arguments that
were joined with commas, with or without a space behind them, are found again. -/
theorem splitArguments_segments :
    (∀ text, ∃ front last, (∀ segments, Segments 0 text segments ↔ segments = front ++ [last]) ∧
      splitArguments text = front.map trim ++ if last.all isBlank then [] else [trim last]) ∧
    (∀ segment, trim segment = [] ↔ segment.all isBlank = true) ∧
    ∀ parts, (∀ part ∈ parts, WholeArgument part) →
      splitArguments ([','].intercalate parts) = parts ∧
        splitArguments ([',', ' '].intercalate parts) = parts := by
  refine ⟨fun text => ?_, fun segment => trim_eq_nil_iff, fun parts whole => ?_⟩
  · -- there always is a last piece, and it is the one that may be left out
    have filled : pieces text ≠ [] := (segments_iff.mpr rfl).filled
    have cut := (List.dropLast_concat_getLast filled).symm
    exact ⟨_, _, fun segments => cut ▸ segments_iff, splitArguments_of_pieces cut⟩
  · have split (gap : List Char) (blank : ∀ c ∈ gap, isBlank c = true) :
        splitArguments ((',' :: gap).intercalate parts) = parts :=
      splitArguments_intercalate gap blank (fun part member => (whole part member).passes)
        (fun part member => (whole part member).trimmed)
        fun part member => (whole part member).filled
    exact ⟨split [] (by simp), split [' '] (by simp; decide)⟩

/-- Arguments with commas inside their brackets. -/
theorem splitArguments_segments_nestedArguments :
    (∀ part ∈ ["A\x601[[B,C]]".toList, "(D, E)".toList, "F".toList], WholeArgument part) ∧
      splitArguments "A\x601[[B,C]],(D, E),F".toList =
        ["A\x601[[B,C]]".toList, "(D, E)".toList, "F".toList] ∧
      splitArguments "A\x601[[B,C]], (D, E), F".toList =
        ["A\x601[[B,C]]".toList, "(D, E)".toList, "F".toList] := by
  have whole : ∀ part ∈ ["A\x601[[B,C]]".toList, "(D, E)".toList, "F".toList],
      WholeArgument part := by
    simp only [List.forall_mem_cons]
    exact ⟨⟨by decide, by decide, by decide, by decide⟩,
      ⟨by decide, by decide, by decide, by decide⟩,
      ⟨by decide, by decide, by decide, by decide⟩, by simp⟩
  exact ⟨whole, splitArguments_segments.2.2 _ whole⟩

/-- Below depth zero nothing is cut, and a blank piece in front of another is kept. -/
example : splitArguments "],[ ,a, , ".toList = ["],[".toList, ['a'], []] := by decide

end MemberOrigin.Ty
