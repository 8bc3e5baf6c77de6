import MemberOrigin.Ty.Arguments
import MemberOrigin.Text.Word

/-!
# Shapes of type strings

What the outermost notation of a trimmed type string is. The suffixes come first, the last one
binding loosest, then the parentheses of a tuple, then the argument list of a named type. The texts
inside a shape are shorter than the string, so that reading a type by its shape ends.
-/
namespace MemberOrigin.Ty

/-- The outermost notation of a type string, with the texts inside it. -/
inductive Shape
  | reference (element : List Char)
  | optional (inner : List Char)
  | array (element : List Char) (rank : Nat)
  | tuple (elements : List (List Char))
  | atom
deriving Repr, DecidableEq

/-- The text in front of `[,…,]` at the end of a text, and the number of commas. The text in front
stays on one line. -/
def arraySuffix? (text : List Char) : Option (List Char × Nat) :=
  match text.reverse with
  | ']' :: rest =>
    let commas := (rest.takeWhile (· == ',')).length
    match rest.dropWhile (· == ',') with
    | '[' :: front => if front.any Text.isLineBreak then none else some (front.reverse, commas)
    | _ => none
  | _ => none

/-- The text between the first and the last character, if these are parentheses. -/
def parenthesized? (text : List Char) : Option (List Char) :=
  match text with
  | '(' :: rest => if rest.getLast? == some ')' then some rest.dropLast else none
  | _ => none

/-- The shape of a trimmed text that is not empty. -/
def shape (text : List Char) : Shape :=
  match text.getLast? with
  | some '&' => .reference text.dropLast
  | some '?' => .optional (Text.trim text.dropLast)
  -- brackets that hold more than commas belong to an atom
  | _ =>
    match arraySuffix? text with
    | some (element, commas) => .array element (commas + 1)
    | none =>
      match parenthesized? text with
      | some inside => .tuple (splitArguments inside)
      | none => .atom

/-- A tuple element: the text of its type and its name. A name is the last word of an element of
two words or more; what is in front of it stays on one line. -/
def elementParts (element : List Char) : List Char × Option (List Char) :=
  let reversed := element.reverse
  let name := (reversed.takeWhile (! Text.isBlank ·)).reverse
  let front := ((reversed.dropWhile (! Text.isBlank ·)).dropWhile Text.isBlank).reverse
  if Text.isIdentifier name && !front.isEmpty && !front.any Text.isLineBreak
  then (front, some name) else (element, none)

/-- The parts of an atom with type arguments. -/
structure Instantiation where
  name : List Char
  arity : Nat
  arguments : List (List Char)
deriving Repr, DecidableEq

/-- The text between `[[` and `]]`, when it is not empty and on one line. -/
def bracketed? (text : List Char) : Option (List Char) :=
  match text with
  | '[' :: '[' :: rest =>
    match rest.reverse with
    | ']' :: ']' :: content =>
      if content.isEmpty || content.any Text.isLineBreak then none else some content.reverse
    | _ => none
  | _ => none

/-- Reads a qualified name, a grave accent, the number of arguments and the arguments. -/
def instantiation? (text : List Char) : Option Instantiation :=
  let name := text.takeWhile (· != '\x60')
  match text.dropWhile (· != '\x60') with
  | _ :: rest =>
    match Text.natural? (rest.takeWhile Char.isDigit), bracketed? (rest.dropWhile Char.isDigit) with
    | some arity, some content =>
      if Text.isQualifiedWord name then some ⟨name, arity, splitArguments content⟩ else none
    | _, _ => none
  | [] => none

theorem length_arraySuffix? {text element : List Char} {commas : Nat}
    (found : arraySuffix? text = some (element, commas)) : element.length < text.length := by
  simp only [arraySuffix?] at found
  split at found
  next rest reversed =>
    split at found
    next front after =>
      split at found
      · simp at found
      · simp only [Option.some.injEq, Prod.mk.injEq] at found
        have bound := Text.length_dropWhile_le (· == ',') rest
        have total := congrArg List.length reversed
        rw [after] at bound
        simp only [List.length_cons, List.length_reverse] at bound total
        rw [← found.1, List.length_reverse]
        omega
    · simp at found
  · simp at found

theorem length_parenthesized? {text inside : List Char}
    (found : parenthesized? text = some inside) : inside.length < text.length := by
  simp only [parenthesized?] at found
  split at found
  next rest =>
    split at found
    · simp only [Option.some.injEq] at found
      rw [← found]
      simp only [List.length_dropLast, List.length_cons]
      omega
    · simp at found
  · simp at found

theorem length_elementParts_le (element : List Char) :
    (elementParts element).1.length ≤ element.length := by
  simp only [elementParts]
  split
  · have outer := Text.length_dropWhile_le Text.isBlank (element.reverse.dropWhile (! Text.isBlank ·))
    have inner := Text.length_dropWhile_le (! Text.isBlank ·) element.reverse
    simp only [List.length_reverse] at *
    omega
  · exact Nat.le_refl _

theorem length_bracketed? {text content : List Char} (found : bracketed? text = some content) :
    content.length < text.length := by
  simp only [bracketed?] at found
  split at found
  next rest =>
    split at found
    next inner reversed =>
      split at found
      · simp at found
      · simp only [Option.some.injEq] at found
        have total := congrArg List.length reversed
        simp only [List.length_reverse, List.length_cons] at total
        rw [← found]
        simp only [List.length_reverse, List.length_cons]
        omega
    · simp at found
  · simp at found

theorem length_instantiation? {text : List Char} {parts : Instantiation}
    (found : instantiation? text = some parts) :
    ∀ argument ∈ parts.arguments, argument.length < text.length := by
  simp only [instantiation?] at found
  split at found
  next grave rest after =>
    split at found
    next arity content number brackets =>
      split at found
      · simp only [Option.some.injEq] at found
        intro argument member
        rw [← found] at member
        have short := length_splitArguments_le member
        have inside := length_bracketed? brackets
        have digits := Text.length_dropWhile_le Char.isDigit rest
        have front := Text.length_dropWhile_le (· != '\x60') text
        rw [after] at front
        simp only [List.length_cons] at front
        omega
      · simp at found
    · simp at found
  · simp at found

/-- The texts inside a shape. -/
def Shape.parts : Shape → List (List Char)
  | .reference element => [element]
  | .optional inner => [inner]
  | .array element _ => [element]
  | .tuple elements => elements
  | .atom => []

/-- The texts inside a shape are shorter than the text that has it. -/
theorem length_parts_lt {text part : List Char} (member : part ∈ (shape text).parts) :
    part.length < text.length := by
  simp only [shape] at member
  split at member
  next last =>
    simp only [Shape.parts, List.mem_singleton] at member
    cases text with
    | nil => simp at last
    | cons c rest => rw [member]; simp
  next last =>
    simp only [Shape.parts, List.mem_singleton] at member
    have bound := Text.length_trim_le text.dropLast
    cases text with
    | nil => simp at last
    | cons c rest => rw [member]; simp at bound ⊢; omega
  · split at member
    next element commas found =>
      simp only [Shape.parts, List.mem_singleton] at member
      rw [member]
      exact length_arraySuffix? found
    · split at member
      next inside found =>
        have bound := length_splitArguments_le member
        have inner := length_parenthesized? found
        omega
      · simp [Shape.parts] at member

end MemberOrigin.Ty
