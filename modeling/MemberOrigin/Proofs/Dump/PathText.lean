import Mathlib.Data.List.TakeWhile
import MemberOrigin.Document.Path

/-!
# Texts of paths

The text of a path tells its steps, as long as no key in it has the signs that separate steps.
-/
namespace MemberOrigin

/-- A key that stands out from the steps around it in the text of a path. -/
def PlainKey (key : String) : Prop :=
  key.toList ≠ [] ∧ ∀ c ∈ key.toList, c ≠ '.' ∧ c ≠ '[' ∧ c ≠ '$'

instance (key : String) : Decidable (PlainKey key) :=
  decidable_of_iff (key.toList.isEmpty = false ∧
      key.toList.all (fun c => c != '.' && c != '[' && c != '$') = true) <| by
    simp [PlainKey, and_assoc]

namespace DocPath

/-- Whether a character belongs to the key that is being read. -/
def isOfKey (c : Char) : Bool :=
  c != '.' && c != '['

/-- Reads steps: a key behind each dot, a position in each pair of brackets. -/
def readSteps : List Char → Option (List Step)
  | [] => some []
  | '.' :: rest =>
    (readSteps (rest.dropWhile isOfKey)).map fun steps =>
      .key (String.ofList (rest.takeWhile isOfKey)) :: steps
  | '[' :: rest =>
    let digits := rest.takeWhile Char.isDigit
    let others := rest.dropWhile Char.isDigit
    if digits.isEmpty || others.head? != some ']' then none
    else (readSteps (others.drop 1)).map fun steps =>
      .index (Nat.ofDigitChars 10 digits 0) :: steps
  | _ => none
termination_by chars => chars.length
decreasing_by
  · have := List.length_dropWhile_le isOfKey rest
    simp only [List.length_cons]
    omega
  · have := List.length_dropWhile_le Char.isDigit rest
    simp only [List.length_drop, List.length_cons]
    omega

/-- Reads the text of a path. The root is the empty text or a sign of its own, and the first key has
no dot in front. -/
def read? (text : String) : Option (List Step) :=
  match text.toList with
  | [] => some []
  | '$' :: rest => readSteps rest
  | first :: rest => readSteps (if isOfKey first then '.' :: first :: rest else first :: rest)

/-- All keys of a path are plain. -/
def Plain (path : DocPath) : Prop :=
  ∀ name, .key name ∈ path.steps → PlainKey name

theorem plain_root : root.Plain := by
  intro name member
  cases member

theorem Plain.key {path : DocPath} (plain : path.Plain) {name : String} (plainKey : PlainKey name) :
    (path.key name).Plain := by
  intro other member
  rcases List.mem_append.mp member with before | last
  · exact plain other before
  · obtain rfl : other = name := by simpa using last
    exact plainKey

theorem Plain.index {path : DocPath} (plain : path.Plain) (position : Nat) :
    (path.index position).Plain := by
  intro name member
  rcases List.mem_append.mp member with before | last
  · exact plain name before
  · simp at last

/-- Behind a key comes the end or the next step. -/
theorem takeWhile_stepsText (steps : List Step) :
    (stepsText steps).toList.takeWhile isOfKey = [] ∧
      (stepsText steps).toList.dropWhile isOfKey = (stepsText steps).toList := by
  cases steps with
  | nil => simp [stepsText]
  | cons step rest => cases step <;> simp [stepsText, isOfKey]

theorem readSteps_stepsText {steps : List Step} (plain : ∀ name, .key name ∈ steps → PlainKey name) :
    readSteps (stepsText steps).toList = some steps := by
  induction steps with
  | nil => simp [stepsText, readSteps]
  | cons step rest ih =>
    have behind := ih fun name member => plain name (List.mem_cons_of_mem _ member)
    cases step with
    | key name =>
      -- a plain name ends at the sign of the next step, not before
      have ofName : ∀ c ∈ name.toList, isOfKey c = true := by
        intro c member
        obtain ⟨noDot, noBracket, _⟩ := (plain name List.mem_cons_self).2 c member
        simp [isOfKey, noDot, noBracket]
      obtain ⟨takes, drops⟩ := takeWhile_stepsText rest
      have text : (stepsText (.key name :: rest)).toList =
          '.' :: (name.toList ++ (stepsText rest).toList) := by
        simp [stepsText]
      rw [text, readSteps, List.takeWhile_append_of_pos ofName, List.dropWhile_append_of_pos ofName,
        takes, drops, behind]
      simp
    | index position =>
      -- a position is written in digits, up to the closing bracket
      have ofNumber : ∀ c ∈ Nat.toDigits 10 position, c.isDigit = true :=
        fun c member => Nat.isDigit_of_mem_toDigits (by decide) (by decide) member
      have text : (stepsText (.index position :: rest)).toList =
          '[' :: (Nat.toDigits 10 position ++ ']' :: (stepsText rest).toList) := by
        simp [stepsText]
      rw [text, readSteps, List.takeWhile_append_of_pos ofNumber,
        List.dropWhile_append_of_pos ofNumber]
      simp [behind, Nat.ofDigitChars_toDigits]

/-- The steps of a path with plain keys can be read off its text. -/
theorem read?_text {path : DocPath} (plain : path.Plain) : read? path.text = some path.steps := by
  obtain ⟨steps, marked⟩ := path
  have reads := readSteps_stepsText plain
  cases marked with
  | true => simpa [text, read?] using reads
  | false =>
    cases steps with
    | nil => simp [text, read?, stepsText]
    | cons step rest =>
      cases step with
      | index position => simpa [text, read?, stepsText, isOfKey] using reads
      | key name =>
        obtain ⟨filled, signs⟩ := plain name List.mem_cons_self
        obtain ⟨first, others, chars⟩ := List.exists_cons_of_ne_nil filled
        obtain ⟨noDot, noBracket, noSign⟩ := signs first (by simp [chars])
        -- the text leaves out the dot of the first key, which reading puts back
        have dotted : (stepsText (.key name :: rest)).toList =
            '.' :: first :: (others ++ (stepsText rest).toList) := by
          simp [stepsText, chars]
        rw [dotted] at reads
        simp [text, read?, chars, isOfKey, noDot, noBracket, reads]

end DocPath

end MemberOrigin
