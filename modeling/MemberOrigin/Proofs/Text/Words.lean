import Mathlib.Data.List.TakeWhile
import MemberOrigin.Text.Blank
import MemberOrigin.Text.Word

/-!
# Words, blanks and digits

Trimming leaves a text alone that neither starts nor ends with a blank. No character of a word is a
blank, and the digits that a number is written with give the number back.
-/
namespace MemberOrigin.Text

/-! ### Trimming -/

theorem trim_eq_self {text : List Char} (starts : ∀ c ∈ text.head?, isBlank c = false)
    (ends : ∀ c ∈ text.getLast?, isBlank c = false) : trim text = text := by
  have kept (line : List Char) (solid : ∀ c ∈ line.head?, isBlank c = false) :
      line.dropWhile isBlank = line := by
    cases line with
    | nil => rfl
    | cons c rest => simp [solid c rfl]
  have back : ∀ c ∈ text.reverse.head?, isBlank c = false := by
    simpa only [List.head?_reverse] using ends
  rw [trim, trimStart, kept text starts, trimEnd, kept text.reverse back, List.reverse_reverse]

/-- Only of a blank text nothing is left. -/
theorem trim_eq_nil_iff {text : List Char} : trim text = [] ↔ text.all isBlank = true := by
  simp only [trim, trimEnd, List.reverse_eq_nil_iff, List.dropWhile_eq_nil_iff, List.mem_reverse,
    List.all_eq_true]
  constructor
  · intro blank c member
    rw [← List.takeWhile_append_dropWhile (p := isBlank) (l := text), List.mem_append] at member
    rcases member with leading | other
    · exact List.mem_takeWhile_imp leading
    · exact blank c other
  · intro blank c member
    exact blank c ((List.dropWhile_sublist isBlank).subset member)

theorem isLineBreak_eq_false {c : Char} (solid : isBlank c = false) : isLineBreak c = false := by
  have cases : isLineBreak c = true → isBlank c = true := by
    intro ends
    simp only [isLineBreak, Bool.or_eq_true, beq_iff_eq] at ends
    rcases ends with ((rfl | rfl) | code) | code
    · decide
    · decide
    · simp [isBlank, code]
    · simp [isBlank, code]
  cases broken : isLineBreak c with
  | false => rfl
  | true => exact absurd (cases broken) (by simp [solid])

/-! ### Word characters -/

/-- Word characters lie between `0` and `z`. -/
theorem toNat_of_isWordChar {c : Char} (word : isWordChar c = true) :
    48 ≤ c.toNat ∧ c.toNat ≤ 122 := by
  -- letters and digits are compared as numbers of the code
  have letter : c.isAlpha = true →
      (65 ≤ c.toNat ∧ c.toNat ≤ 90) ∨ (97 ≤ c.toNat ∧ c.toNat ≤ 122) := by
    intro alpha
    change (decide (65 ≤ c.val ∧ c.val ≤ 90) ||
      (decide (97 ≤ c.val) && decide (c.val ≤ 122))) = true at alpha
    simp only [Bool.or_eq_true, Bool.and_eq_true, decide_eq_true_eq,
      UInt32.le_iff_toNat_le] at alpha
    exact alpha
  have digit : c.isDigit = true → 48 ≤ c.toNat ∧ c.toNat ≤ 57 := by
    intro decimal
    change (decide (48 ≤ c.val) && decide (c.val ≤ 57)) = true at decimal
    simp only [Bool.and_eq_true, decide_eq_true_eq, UInt32.le_iff_toNat_le] at decimal
    exact decimal
  simp only [isWordChar, Char.isAlphanum, Bool.or_eq_true, beq_iff_eq] at word
  replace word := word.imp_left (Or.imp letter digit)
  rcases word with ((upper | lower) | digit) | rfl
  · omega
  · omega
  · omega
  · decide

theorem isBlank_of_isWordChar {c : Char} (word : isWordChar c = true) : isBlank c = false := by
  obtain ⟨low, high⟩ := toNat_of_isWordChar word
  simp only [isBlank, Bool.or_eq_false_iff, Bool.and_eq_false_iff, decide_eq_false_iff_not,
    beq_eq_false_iff_ne]
  omega

theorem isBlank_of_isQualifiedChar {c : Char} (word : isQualifiedChar c = true) :
    isBlank c = false := by
  simp only [isQualifiedChar, Bool.or_eq_true, beq_iff_eq] at word
  rcases word with (word | rfl) | rfl
  · exact isBlank_of_isWordChar word
  · decide
  · decide

theorem isQualifiedChar_of_isWordChar {c : Char} (word : isWordChar c = true) :
    isQualifiedChar c = true := by
  simp [isQualifiedChar, word]

theorem isWordChar_of_isWordStart {c : Char} (start : isWordStart c = true) :
    isWordChar c = true := by
  simp only [isWordStart, isWordChar, Char.isAlphanum, Bool.or_eq_true] at start ⊢
  rcases start with letter | underscore
  · exact Or.inl (Or.inl letter)
  · exact Or.inr underscore

theorem isWordChar_of_isDigit {c : Char} (digit : c.isDigit = true) : isWordChar c = true := by
  simp [isWordChar, Char.isAlphanum, digit]

/-- An identifier is made of word characters. -/
theorem isWordChar_of_isIdentifier {word : List Char} (identifier : isIdentifier word = true) :
    ∀ c ∈ word, isWordChar c = true := by
  cases word with
  | nil => simp
  | cons first rest =>
    simp only [isIdentifier, Bool.and_eq_true, List.all_eq_true] at identifier
    intro c member
    rcases List.mem_cons.mp member with rfl | member
    · exact isWordChar_of_isWordStart identifier.1
    · exact identifier.2 c member

theorem isQualifiedChar_of_isQualifiedWord {word : List Char}
    (qualified : isQualifiedWord word = true) : ∀ c ∈ word, isQualifiedChar c = true := by
  cases word with
  | nil => simp
  | cons first rest =>
    simp only [isQualifiedWord, Bool.and_eq_true, List.all_eq_true] at qualified
    intro c member
    rcases List.mem_cons.mp member with rfl | member
    · exact isQualifiedChar_of_isWordChar (isWordChar_of_isWordStart qualified.1)
    · exact qualified.2 c member

theorem isQualifiedWord_of_isIdentifier {word : List Char} (identifier : isIdentifier word = true) :
    isQualifiedWord word = true := by
  cases word with
  | nil => simp [isIdentifier] at identifier
  | cons first rest =>
    simp only [isIdentifier, isQualifiedWord, Bool.and_eq_true, List.all_eq_true] at identifier ⊢
    exact ⟨identifier.1, fun c member => isQualifiedChar_of_isWordChar (identifier.2 c member)⟩

/-! ### Digits -/

theorem isDigit_of_mem_toDigits {n : Nat} {c : Char} (member : c ∈ Nat.toDigits 10 n) :
    c.isDigit = true :=
  Nat.isDigit_of_mem_toDigits (by decide) (by decide) member

/-- The digits of a number read back as the number. -/
theorem natural?_toDigits (n : Nat) : natural? (Nat.toDigits 10 n) = some n := by
  have digits : (Nat.toDigits 10 n).all Char.isDigit = true :=
    List.all_eq_true.mpr fun _ member => isDigit_of_mem_toDigits member
  have value : decimalValue (Nat.toDigits 10 n) = Nat.ofDigitChars 10 (Nat.toDigits 10 n) 0 := by
    rw [decimalValue, Nat.ofDigitChars_eq_foldl]
    simp only [Nat.mul_comm]
  simp only [natural?, digits, List.isEmpty_eq_false_iff.mpr Nat.toDigits_ne_nil, value,
    Bool.not_false, Bool.and_self, if_true]
  rw [Nat.ofDigitChars_toDigits (by decide) (by decide)]

end MemberOrigin.Text
