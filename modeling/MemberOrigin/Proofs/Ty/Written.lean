import Mathlib.Data.List.Basic
import MemberOrigin.Proofs.Text.Words
import MemberOrigin.Proofs.Ty.Splitting
import MemberOrigin.Ty.Format
import MemberOrigin.Ty.Parse

/-!
# Well-formed types and their notation

The types that can be written in a scope, and what all written types have in common: they are
trimmed, no comma of theirs is outside of brackets, and a blank of theirs stands inside the
parentheses of a tuple. This is what keeps a written type whole inside another one.
-/
namespace MemberOrigin

/-- What stands in front of the position of a type parameter. -/
def Owner.mark : Owner → String
  | .type => "!"
  | .method => "!!"

namespace TypeScope

/-- All names of a scope. -/
def names (scope : TypeScope) : List String :=
  scope.typeParameters ++ scope.methodTypeParameters

/-- The parameters of one owner. -/
def parameters (scope : TypeScope) : Owner → List String
  | .type => scope.typeParameters
  | .method => scope.methodTypeParameters

/-- How the parameter at a position is written: by its name in the scope, or by its position if the
scope does not reach there. -/
def nameAt (scope : TypeScope) (owner : Owner) (index : Nat) : String :=
  (scope.parameters owner)[index]?.getD (owner.mark ++ toString index)

theorem mem_names {scope : TypeScope} {owner : Owner} {name : String}
    (member : name ∈ scope.parameters owner) : name ∈ scope.names := by
  cases owner with
  | type => exact List.mem_append_left _ member
  | method => exact List.mem_append_right _ member

end TypeScope

namespace Ty

open Text

/-- The words that mean a type of their own. -/
def builtinWords : List String :=
  keywords.map Prod.fst ++ ["dynamic", "nint", "nuint"]

/-- A scope whose names are distinct identifiers that hide no word with a meaning of its own. -/
structure WellNamed (scope : TypeScope) : Prop where
  distinct : scope.names.Nodup
  identifier : ∀ name ∈ scope.names, isIdentifier name.toList = true
  notBuiltin : ∀ name ∈ scope.names, name ∉ builtinWords

/-- The words that a name without arguments cannot be. -/
def takenWords (scope : TypeScope) : List String :=
  builtinWords ++ scope.names ++ reservedWords

/-- The types that can be written in a scope. -/
inductive WellFormed (scope : TypeScope) : Ty → Prop
  | named {ns name : String} {args : List Ty} {nullable : Bool}
      (qualified : isQualifiedWord (qualify ns name).toList = true) (undotted : '.' ∉ name.toList)
      (free : args = [] → qualify ns name ∉ takenWords scope)
      (inner : ∀ arg ∈ args, WellFormed scope arg) :
      WellFormed scope (.named ns name args nullable)
  | parameter {owner : Owner} {index : Nat} {nullable : Bool} (small : index < Nat.pow 2 53) :
      WellFormed scope (.parameter owner index (scope.nameAt owner index) nullable)
  | array {element : Ty} {rank : Int} {nullable : Bool} (positive : 1 ≤ rank)
      (inner : WellFormed scope element) : WellFormed scope (.array element rank nullable)
  | reference {element : Ty} (inner : WellFormed scope element) :
      WellFormed scope (.reference element)
  | tuple {elements : List Ty} {names : List (Option String)} (several : 2 ≤ elements.length)
      (identifiers : ∀ i < elements.length, ∀ name, elementName names i = some name →
        isIdentifier name.toList = true)
      (inner : ∀ element ∈ elements, WellFormed scope element) :
      WellFormed scope (.tuple elements names)
  | nativeInteger (unsigned : Bool) : WellFormed scope (.nativeInteger unsigned)
  | dynamic (nullable : Bool) : WellFormed scope (.dynamic nullable)

/-- The types that a type string can mean in a scope. A name without arguments may be a word that
means another type, and a type parameter has any name that means it. -/
inductive Readable (scope : TypeScope) : Ty → Prop
  | named {ns name : String} {args : List Ty} {nullable : Bool}
      (qualified : isQualifiedWord (qualify ns name).toList = true) (undotted : '.' ∉ name.toList)
      (inner : ∀ arg ∈ args, Readable scope arg) : Readable scope (.named ns name args nullable)
  | parameter {owner : Owner} {index : Int} {name : String} {nullable : Bool}
      (means : word? scope name.toList = some (.parameter owner index name false)) :
      Readable scope (.parameter owner index name nullable)
  | array {element : Ty} {rank : Int} {nullable : Bool} (positive : 1 ≤ rank)
      (inner : Readable scope element) : Readable scope (.array element rank nullable)
  | reference {element : Ty} (inner : Readable scope element) : Readable scope (.reference element)
  | tuple {elements : List Ty} {names : List (Option String)} (several : 2 ≤ elements.length)
      (identifiers : ∀ i < elements.length, ∀ name, elementName names i = some name →
        isIdentifier name.toList = true)
      (inner : ∀ element ∈ elements, Readable scope element) :
      Readable scope (.tuple elements names)
  | nativeInteger (unsigned : Bool) : Readable scope (.nativeInteger unsigned)
  | dynamic (nullable : Bool) : Readable scope (.dynamic nullable)

/-! ### Texts that stay whole -/

/-- Every blank is a space that a closing parenthesis follows. -/
def Enclosed (text : List Char) : Prop :=
  ∀ front c back, text = front ++ c :: back → isBlank c = true → c = ' ' ∧ ')' ∈ back

namespace Enclosed

theorem of_solid {text : List Char} (solid : ∀ c ∈ text, isBlank c = false) : Enclosed text := by
  intro front c back split blank
  have member : c ∈ text := by simp [split]
  simp [solid c member] at blank

theorem append {left right : List Char} (first : Enclosed left) (second : Enclosed right) :
    Enclosed (left ++ right) := by
  intro front c back split blank
  rcases List.append_eq_append_iff.mp split with ⟨more, -, behind⟩ | ⟨more, inside, behind⟩
  · exact second more c back behind blank
  · cases more with
    | nil => exact second [] c back (by simpa using behind.symm) blank
    | cons other more =>
      -- the blank stands in the left text, where the parenthesis behind it stands as well
      obtain ⟨rfl, rfl⟩ := List.cons.inj behind
      obtain ⟨space, closes⟩ := first front c more inside blank
      exact ⟨space, List.mem_append_left _ closes⟩

theorem intercalate {sep : List Char} (gap : Enclosed sep) {parts : List (List Char)}
    (enclosed : ∀ part ∈ parts, Enclosed part) : Enclosed (sep.intercalate parts) := by
  induction parts with
  | nil => exact of_solid (by simp)
  | cons part rest ih =>
    obtain ⟨here, others⟩ := List.forall_mem_cons.mp enclosed
    cases rest with
    | nil => simpa using here
    | cons next more =>
      rw [List.intercalate_cons_cons]
      exact (here.append gap).append (ih others)

/-- Parentheses enclose the spaces between them. -/
theorem parentheses {inside : List Char} (spaces : ∀ c ∈ inside, isBlank c = true → c = ' ') :
    Enclosed ('(' :: inside ++ [')']) := by
  intro front c back split blank
  have member : c ∈ '(' :: inside ++ [')'] := by simp [split]
  simp only [List.cons_append, List.mem_cons, List.mem_append, List.not_mem_nil, or_false] at member
  rcases member with rfl | member | rfl
  · exact absurd blank (by decide)
  · refine ⟨spaces c member blank, ?_⟩
    -- the last character is a parenthesis, so it is not the blank but stands behind it
    have last := congrArg List.getLast? split
    cases back with
    | nil =>
      simp only [List.getLast?_append, List.getLast?_singleton, Option.some_or,
        Option.some.injEq] at last
      subst last
      exact absurd blank (by decide)
    | cons next more =>
      simp only [List.getLast?_append, List.getLast?_singleton, Option.some_or,
        List.getLast?_cons_cons] at last
      have found : (next :: more).getLast? = some ')' := by
        rw [last]
        simp [List.getLast?_cons]
      exact List.mem_of_getLast? found
  · exact absurd blank (by decide)

end Enclosed

/-- What all written types have in common. -/
structure Written (text : List Char) : Prop where
  filled : text ≠ []
  starts : ∀ c ∈ text.head?, isBlank c = false
  ends : ∀ c ∈ text.getLast?, isBlank c = false
  closed : Closed text
  enclosed : Enclosed text

namespace Written

theorem trimmed {text : List Char} (written : Written text) : trim text = text :=
  trim_eq_self written.starts written.ends

theorem spaces {text : List Char} (written : Written text) :
    ∀ c ∈ text, isBlank c = true → c = ' ' := by
  intro c member blank
  obtain ⟨front, back, split⟩ := List.append_of_mem member
  exact (written.enclosed front c back split blank).1

/-- A written type stands on one line. -/
theorem oneLine {text : List Char} (written : Written text) : text.any isLineBreak = false := by
  rw [List.any_eq_false]
  intro c member broken
  cases blank : isBlank c with
  | false => simp [isLineBreak_eq_false blank] at broken
  | true =>
    rw [written.spaces c member blank] at broken
    exact absurd broken (by decide)

theorem of_solid {text : List Char} (filled : text ≠ [])
    (solid : ∀ c ∈ text, isBlank c = false) (closed : Closed text) : Written text where
  filled := filled
  starts c head := solid c (List.mem_of_head? head)
  ends c last := solid c (List.mem_of_getLast? last)
  closed := closed
  enclosed := Enclosed.of_solid solid

/-- A written type with something behind it that ends solid. -/
theorem append {text suffix : List Char} (written : Written text) (enclosed : Enclosed suffix)
    (ends : ∀ c ∈ suffix.getLast?, isBlank c = false) (closed : Closed suffix) :
    Written (text ++ suffix) where
  filled := by simp [written.filled]
  starts := by
    intro c head
    rw [List.head?_append_of_ne_nil _ written.filled] at head
    exact written.starts c head
  ends := by
    intro c last
    rw [List.getLast?_append] at last
    cases found : suffix.getLast? with
    | none => exact written.ends c (by simpa [found] using last)
    | some d => exact ends c (by simpa [found] using last)
  closed := written.closed.append closed
  enclosed := written.enclosed.append enclosed

theorem append_solid {text suffix : List Char} (written : Written text)
    (solid : ∀ c ∈ suffix, isBlank c = false) (closed : Closed suffix) :
    Written (text ++ suffix) :=
  written.append (Enclosed.of_solid solid) (fun c last => solid c (List.mem_of_getLast? last))
    closed

end Written

/-! ### The notation, character by character -/

theorem toList_nullableMark (nullable : Bool) :
    (nullableMark nullable).toList = if nullable then ['?'] else [] := by
  cases nullable <;> rfl

/-- The number of arguments and the arguments, which are written in double brackets. -/
theorem toList_argumentList {args : List Ty} (some : args ≠ []) :
    (argumentList (formatAll args)).toList =
      '\x60' :: Nat.toDigits 10 args.length ++
        ('[' :: ('[' :: [','].intercalate (args.map fun arg => (format arg).toList) ++ [']'])
          ++ [']']) := by
  have filled : (args.map format).isEmpty = false := by simpa using some
  simp only [argumentList, formatAll_eq_map, filled, Bool.false_eq_true, if_false,
    String.toList_append, String.toList_intercalate, List.length_map, List.map_map,
    Nat.toString_eq_ofList_toDigits, String.toList_ofList]
  simp [Function.comp_def]

theorem toList_rankText (rank : Int) :
    (rankText rank).toList = '[' :: List.replicate (rank - 1).toNat ',' ++ [']'] := by
  simp [rankText]

theorem namesOf_succ (n : Nat) (names : List (Option String)) :
    namesOf (n + 1) names = elementName names 0 :: namesOf n names.tail := by
  simp only [namesOf, List.range_succ_eq_map, List.map_cons, List.map_map]
  congr 2
  funext i
  cases names <;> simp [elementName]

theorem nameElements_eq_zipWith (texts : List String) (names : List (Option String)) :
    nameElements texts names = List.zipWith elementText texts (namesOf texts.length names) := by
  induction texts generalizing names with
  | nil => simp [nameElements]
  | cons text rest ih =>
    rw [List.length_cons, namesOf_succ, List.zipWith_cons_cons, ← ih]
    cases names with
    | nil => cases rest <;> simp [nameElements, elementName, elementText]
    | cons name others => simp [nameElements, elementName]

/-- A tuple element as it is written. -/
def elementChars (element : Ty × Option String) : List Char :=
  (elementText (format element.1) element.2).toList

/-- The elements of a tuple with their names. -/
def namedElements (elements : List Ty) (names : List (Option String)) :
    List (Ty × Option String) :=
  elements.zip (namesOf elements.length names)

theorem toList_format_tuple (elements : List Ty) (names : List (Option String)) :
    (format (.tuple elements names)).toList =
      '(' :: [',', ' '].intercalate ((namedElements elements names).map elementChars) ++ [')'] := by
  have named : nameElements (formatAll elements) names =
      (namedElements elements names).map fun element =>
        elementText (format element.1) element.2 := by
    rw [formatAll_eq_map, nameElements_eq_zipWith, List.length_map, List.zipWith_map_left,
      namedElements, List.zip, List.map_zipWith]
  simp only [format, named, String.toList_append, String.toList_intercalate, List.map_map]
  rfl

/-! ### Written types -/

theorem plain_of_isQualifiedChar {c : Char} (word : isQualifiedChar c = true) :
    c ≠ ',' ∧ bracketStep c = 0 := by
  have other (d : Char) (special : isQualifiedChar d = false) : c ≠ d := by
    rintro rfl
    simp [special] at word
  refine ⟨other ',' (by decide), ?_⟩
  simp [bracketStep, other '[' (by decide), other '(' (by decide), other ']' (by decide),
    other ')' (by decide)]

/-- Qualified words are written types by their looks. -/
theorem Written.of_qualified {text : List Char} (qualified : isQualifiedWord text = true) :
    Written text := by
  have word := isQualifiedChar_of_isQualifiedWord qualified
  refine of_solid ?_ (fun c member => isBlank_of_isQualifiedChar (word c member))
    (Closed.of_plain fun c member => plain_of_isQualifiedChar (word c member))
  rintro rfl
  simp [isQualifiedWord] at qualified

theorem Written.annotated {text : List Char} (written : Written text) (nullable : Bool) :
    Written (text ++ (nullableMark nullable).toList) := by
  rw [toList_nullableMark]
  cases nullable with
  | false => simpa using written
  | true => exact written.append_solid (by simp; decide) (Closed.of_plain (by simp; decide))

theorem closed_rankText (rank : Int) : Closed (rankText rank).toList := by
  rw [toList_rankText]
  refine Closed.bracket (by decide) (by decide) fun depth deep => ?_
  induction (rank - 1).toNat with
  | zero => exact Passes.nil depth
  | succ n ih =>
    rw [List.replicate_succ]
    exact (Passes.comma deep).append ih

/-- The list of arguments stays whole, whatever the arguments are. -/
theorem closed_argumentList {args : List Ty}
    (written : ∀ arg ∈ args, Written (format arg).toList) :
    Closed (argumentList (formatAll args)).toList := by
  by_cases none : args = []
  · subst none
    exact Closed.nil
  rw [toList_argumentList none]
  have closed : ∀ part ∈ args.map fun arg => (format arg).toList, Closed part := by
    intro part member
    obtain ⟨arg, inArgs, rfl⟩ := List.mem_map.mp member
    exact (written arg inArgs).closed
  -- the list is the number of arguments, and the arguments inside two pairs of brackets
  have inner :
      Closed ('[' :: [','].intercalate (args.map fun arg => (format arg).toList) ++ [']']) :=
    Closed.bracket (by decide) (by decide) fun depth deep =>
      Passes.intercalate deep (Passes.comma deep) closed
  have digits : Closed ('\x60' :: Nat.toDigits 10 args.length) := by
    refine Closed.of_plain fun c member => ?_
    rcases List.mem_cons.mp member with rfl | digit
    · decide
    · exact plain_of_isQualifiedChar (isQualifiedChar_of_isWordChar
        (isWordChar_of_isDigit (isDigit_of_mem_toDigits digit)))
  exact digits.append (Closed.bracket (by decide) (by decide) fun depth deep =>
    inner depth (by omega))

theorem Written.arguments {text : List Char} (name : Written text) {args : List Ty}
    (written : ∀ arg ∈ args, Written (format arg).toList) :
    Written (text ++ (argumentList (formatAll args)).toList) := by
  by_cases none : args = []
  · subst none
    simpa [argumentList, formatAll] using name
  refine name.append ?_ ?_ (closed_argumentList written)
  · rw [toList_argumentList none]
    have digits : ∀ c ∈ '\x60' :: Nat.toDigits 10 args.length, isBlank c = false := by
      intro c member
      rcases List.mem_cons.mp member with rfl | digit
      · decide
      · exact isBlank_of_isWordChar (isWordChar_of_isDigit (isDigit_of_mem_toDigits digit))
    -- no part of the list has a blank outside of parentheses
    have bracket (c : Char) (solid : isBlank c = false) : Enclosed [c] :=
      Enclosed.of_solid (by simpa using solid)
    have enclosed : ∀ part ∈ args.map fun arg => (format arg).toList, Enclosed part := by
      intro part member
      obtain ⟨arg, inArgs, rfl⟩ := List.mem_map.mp member
      exact (written arg inArgs).enclosed
    have opening := (bracket '[' (by decide)).append (bracket '[' (by decide))
    have closing := (bracket ']' (by decide)).append (bracket ']' (by decide))
    have inside := (opening.append (Enclosed.intercalate (bracket ',' (by decide)) enclosed)).append
      closing
    simpa using (Enclosed.of_solid digits).append inside
  · intro c last
    rw [toList_argumentList none, ← List.append_assoc, List.getLast?_concat,
      Option.mem_some] at last
    exact last ▸ by decide

theorem elementChars_named {type : Ty} {name : String}
    (identifier : isIdentifier name.toList = true) :
    elementChars (type, some name) = (format type).toList ++ ' ' :: name.toList := by
  have filled : name.isEmpty = false := by
    cases empty : name.isEmpty with
    | false => rfl
    | true =>
      rw [String.isEmpty_iff.mp empty] at identifier
      exact absurd identifier (by decide)
  simp [elementChars, elementText, filled]

/-- An element whose type is well-written and whose name is an identifier, if it has one. -/
def WrittenElement (element : Ty × Option String) : Prop :=
  Written (format element.1).toList ∧
    ∀ name, element.2 = some name → isIdentifier name.toList = true

namespace WrittenElement

theorem filled {element : Ty × Option String} (written : WrittenElement element) :
    elementChars element ≠ [] := by
  obtain ⟨type, name⟩ := element
  obtain ⟨whole, identifier⟩ := written
  cases name with
  | none => exact whole.filled
  | some name => simp [elementChars_named (identifier name rfl)]

theorem trimmed {element : Ty × Option String} (written : WrittenElement element) :
    trim (elementChars element) = elementChars element := by
  obtain ⟨type, name⟩ := element
  obtain ⟨whole, identifier⟩ := written
  cases name with
  | none => exact whole.trimmed
  | some name =>
    have named := identifier name rfl
    rw [elementChars_named named]
    refine trim_eq_self ?_ ?_
    · intro c head
      rw [List.head?_append_of_ne_nil _ whole.filled] at head
      exact whole.starts c head
    · -- a name is not empty, so the last character is one of its own
      intro c last
      have filled : name.toList ≠ [] := by
        intro empty
        simp [empty, isIdentifier] at named
      rw [List.append_cons, List.getLast?_append_of_ne_nil _ filled] at last
      exact isBlank_of_isWordChar
        (isWordChar_of_isIdentifier named c (List.mem_of_getLast? last))

theorem closed {element : Ty × Option String} (written : WrittenElement element) :
    Closed (elementChars element) := by
  obtain ⟨type, name⟩ := element
  obtain ⟨whole, identifier⟩ := written
  cases name with
  | none => exact whole.closed
  | some name =>
    have named := identifier name rfl
    rw [elementChars_named named]
    refine whole.closed.append (Closed.of_plain fun c member => ?_)
    rcases List.mem_cons.mp member with rfl | member
    · decide
    · exact plain_of_isQualifiedChar
        (isQualifiedChar_of_isWordChar (isWordChar_of_isIdentifier named c member))

theorem spaces {element : Ty × Option String} (written : WrittenElement element) :
    ∀ c ∈ elementChars element, isBlank c = true → c = ' ' := by
  obtain ⟨type, name⟩ := element
  obtain ⟨whole, identifier⟩ := written
  cases name with
  | none => exact whole.spaces
  | some name =>
    have named := identifier name rfl
    rw [elementChars_named named]
    intro c member blank
    rcases List.mem_append.mp member with member | member
    · exact whole.spaces c member blank
    · rcases List.mem_cons.mp member with rfl | member
      · rfl
      · simp [isBlank_of_isWordChar (isWordChar_of_isIdentifier named c member)] at blank

end WrittenElement

/-- The elements of a tuple that can be written are written ones. -/
theorem writtenElement_of_mem {elements : List Ty} {names : List (Option String)}
    (identifiers : ∀ i < elements.length, ∀ name, elementName names i = some name →
      isIdentifier name.toList = true)
    (written : ∀ element ∈ elements, Written (format element).toList)
    {element : Ty × Option String} (member : element ∈ namedElements elements names) :
    WrittenElement element := by
  refine ⟨written _ (List.of_mem_zip member).1, fun name found => ?_⟩
  have inNames : element.2 ∈ namesOf elements.length names := (List.of_mem_zip member).2
  obtain ⟨i, inRange, given⟩ := List.mem_map.mp inNames
  exact identifiers i (List.mem_range.mp inRange) name (given.trans found)

theorem mem_intercalate {sep : List Char} {parts : List (List Char)} {c : Char}
    (member : c ∈ sep.intercalate parts) : c ∈ sep ∨ ∃ part ∈ parts, c ∈ part := by
  induction parts with
  | nil => simp at member
  | cons part rest ih =>
    cases rest with
    | nil => exact Or.inr ⟨part, by simp, by simpa using member⟩
    | cons next more =>
      rw [List.intercalate_cons_cons, List.append_assoc, List.mem_append, List.mem_append] at member
      rcases member with here | gap | behind
      · exact Or.inr ⟨part, by simp, here⟩
      · exact Or.inl gap
      · rcases ih behind with gap | ⟨other, inRest, found⟩
        · exact Or.inl gap
        · exact Or.inr ⟨other, List.mem_cons_of_mem _ inRest, found⟩

theorem Written.tuple {elements : List (Ty × Option String)}
    (written : ∀ element ∈ elements, WrittenElement element) :
    Written ('(' :: [',', ' '].intercalate (elements.map elementChars) ++ [')']) where
  filled := by simp
  starts c head := by
    obtain rfl : '(' = c := by simpa using head
    decide
  ends c last := by
    rw [List.getLast?_concat, Option.mem_some] at last
    exact last ▸ by decide
  closed := by
    refine Closed.bracket (by decide) (by decide) fun depth deep => ?_
    have gap : Passes depth [',', ' '] depth :=
      (Passes.comma deep).append (Passes.of_plain depth (by simp; decide))
    refine Passes.intercalate deep gap fun part member => ?_
    obtain ⟨element, inElements, rfl⟩ := List.mem_map.mp member
    exact (written element inElements).closed
  enclosed := by
    refine Enclosed.parentheses fun c member blank => ?_
    rcases mem_intercalate member with gap | ⟨part, inParts, found⟩
    · rcases List.mem_cons.mp gap with rfl | space
      · exact absurd blank (by decide)
      · exact List.mem_singleton.mp space
    · obtain ⟨element, inElements, rfl⟩ := List.mem_map.mp inParts
      exact (written element inElements).spaces c found blank

/-- A parameter is written by its name, or by its position behind one exclamation mark or two. -/
theorem nameAt_cases (scope : TypeScope) (owner : Owner) (index : Nat) :
    (scope.parameters owner)[index]? = some (scope.nameAt owner index) ∨
      (scope.parameters owner)[index]? = none ∧
        (scope.nameAt owner index).toList = owner.mark.toList ++ Nat.toDigits 10 index := by
  unfold TypeScope.nameAt
  cases found : (scope.parameters owner)[index]? with
  | some name => exact Or.inl rfl
  | none => exact Or.inr ⟨rfl, by simp⟩

theorem mem_names_of_inScope? {scope : TypeScope} {word : String} {type : Ty}
    (found : inScope? scope word = some type) : word ∈ scope.names := by
  by_contra absent
  simp only [TypeScope.names, List.mem_append, not_or] at absent
  simp [inScope?, List.idxOf?_eq_none_iff.mpr absent.1, List.idxOf?_eq_none_iff.mpr absent.2]
    at found

/-- A word that means nothing of its own is not taken. -/
theorem free_of_unmeant {scope : TypeScope} {word : String} (unnamed : inScope? scope word = none)
    (unbuilt : builtin? word = none) (unreserved : word ∉ reservedWords) :
    word ∉ takenWords scope := by
  have all : builtinWords.all (fun word => (builtin? word).isSome) = true := by decide
  simp only [takenWords, List.mem_append, not_or]
  -- a taken word would be built in, a name of the scope, or reserved
  refine ⟨⟨fun builtin => ?_, fun named => ?_⟩, unreserved⟩
  · have meant := List.all_eq_true.mp all word builtin
    simp [unbuilt] at meant
  · simp only [TypeScope.names, List.mem_append] at named
    cases hidden : scope.methodTypeParameters.idxOf? word with
    | some index => simp [inScope?, hidden] at unnamed
    | none =>
      cases found : scope.typeParameters.idxOf? word with
      | some index => simp [inScope?, hidden, found] at unnamed
      | none =>
        rw [List.idxOf?_eq_none_iff] at hidden found
        exact named.elim found hidden

/-- What an atom without arguments can mean. -/
inductive Meaning (scope : TypeScope) (text : List Char) : Ty → Prop
  | position {owner : Owner} {index : Nat}
      (found : positional? scope text = some (.parameter owner index
        ((scope.parameters owner)[index]?.getD (String.ofList text)) false)) :
      Meaning scope text (.parameter owner index
        ((scope.parameters owner)[index]?.getD (String.ofList text)) false)
  | parameter {owner : Owner} {index : Nat}
      (listed : (scope.parameters owner)[index]? = some (String.ofList text)) :
      Meaning scope text (.parameter owner index (String.ofList text) false)
  | keyword {name : String} {isValue : Bool}
      (listed : keywords.lookup (String.ofList text) = some (name, isValue)) :
      Meaning scope text (.named "System" name [] false)
  | dynamic : Meaning scope text (.dynamic false)
  | nativeInteger (unsigned : Bool) : Meaning scope text (.nativeInteger unsigned)
  | name (free : String.ofList text ∉ takenWords scope) (qualified : isQualifiedWord text = true) :
      Meaning scope text (ofQualified text [])

section Meaning

variable {scope : TypeScope} {text : List Char} {type : Ty}

theorem meaning_of_positional? (found : positional? scope text = some type) :
    Meaning scope text type := by
  have whole := found
  unfold positional? at found
  split at found
  · obtain ⟨n, -, rfl⟩ := Option.map_eq_some_iff.mp found
    exact @Meaning.position scope _ .method _ whole
  · obtain ⟨n, -, rfl⟩ := Option.map_eq_some_iff.mp found
    exact @Meaning.position scope _ .type _ whole
  · cases found

theorem meaning_of_inScope? (found : inScope? scope (String.ofList text) = some type) :
    Meaning scope text type := by
  have listed (owner : Owner) {index : Nat}
      (first : (scope.parameters owner).idxOf? (String.ofList text) = some index) :
      (scope.parameters owner)[index]? = some (String.ofList text) := by
    obtain ⟨inside, here, -⟩ := List.idxOf?_eq_some_iff.mp first
    exact List.getElem?_eq_some_iff.mpr ⟨inside, here⟩
  unfold inScope? at found
  split at found
  next index first =>
    cases found
    exact .parameter (listed .method first)
  · split at found
    next index first =>
      cases found
      exact .parameter (listed .type first)
    · cases found

theorem meaning_of_builtin? (found : builtin? (String.ofList text) = some type) :
    Meaning scope text type := by
  unfold builtin? at found
  split at found
  next keyword =>
    cases found
    obtain ⟨⟨name, isValue⟩, listed, rfl⟩ := Option.map_eq_some_iff.mp keyword
    exact .keyword listed
  · split at found
    · cases found
      exact .dynamic
    · split at found
      · cases found
        exact .nativeInteger false
      · split at found
        · cases found
          exact .nativeInteger true
        · cases found

theorem meaning_of_word? (means : word? scope text = some type) : Meaning scope text type := by
  -- the meanings are tried in this order: position, scope, keyword, name
  simp only [word?] at means
  split at means
  next positional =>
    cases means
    exact meaning_of_positional? positional
  next =>
    split at means
    next named =>
      cases means
      exact meaning_of_inScope? named
    next unnamed =>
      split at means
      next builtin =>
        cases means
        exact meaning_of_builtin? builtin
      next unbuilt =>
        split at means
        · cases means
        next unreserved =>
          split at means
          next qualified =>
            cases means
            exact .name (free_of_unmeant unnamed unbuilt (by simpa using unreserved)) qualified
          · cases means

/-- What means a type parameter is a position or a name of the scope. -/
theorem Meaning.parameter_cases {owner : Owner} {index : Int} {name : String} {nullable : Bool}
    (meaning : Meaning scope text (.parameter owner index name nullable)) :
    (∃ type, positional? scope text = some type) ∨ String.ofList text ∈ scope.names := by
  cases meaning with
  | position found => exact Or.inl ⟨_, found⟩
  | parameter listed => exact Or.inr (TypeScope.mem_names (List.mem_of_getElem? listed))

end Meaning

theorem plain_of_positional? {scope : TypeScope} {text : List Char} {type : Ty}
    (found : positional? scope text = some type) :
    text ≠ [] ∧ ∀ c ∈ text, c = '!' ∨ isQualifiedChar c = true := by
  -- behind the exclamation marks there are digits only
  have digits {rest : List Char} {n : Nat} (number : natural? rest = some n) :
      ∀ c ∈ rest, isQualifiedChar c = true := by
    intro c member
    simp only [natural?, Option.ite_none_right_eq_some, Bool.and_eq_true, List.all_eq_true]
      at number
    exact isQualifiedChar_of_isWordChar (isWordChar_of_isDigit (number.1.2 c member))
  unfold positional? at found
  split at found
  next rest =>
    obtain ⟨n, number, -⟩ := Option.map_eq_some_iff.mp found
    refine ⟨by simp, fun c member => ?_⟩
    simp only [List.mem_cons] at member
    rcases member with mark | mark | digit
    · exact Or.inl mark
    · exact Or.inl mark
    · exact Or.inr (digits number c digit)
  next rest _ =>
    obtain ⟨n, number, -⟩ := Option.map_eq_some_iff.mp found
    refine ⟨by simp, fun c member => ?_⟩
    rcases List.mem_cons.mp member with mark | digit
    · exact Or.inl mark
    · exact Or.inr (digits number c digit)
  · cases found

/-- Names and positions are made of word characters and exclamation marks. -/
theorem plain_parameter {scope : TypeScope} (wellNamed : WellNamed scope) {owner : Owner}
    {index : Int} {name : String} {nullable : Bool}
    (means : word? scope name.toList = some (.parameter owner index name nullable)) :
    name.toList ≠ [] ∧ ∀ c ∈ name.toList, c = '!' ∨ isQualifiedChar c = true := by
  rcases (meaning_of_word? means).parameter_cases with ⟨_, positional⟩ | named
  · exact plain_of_positional? positional
  · rw [String.ofList_toList] at named
    have identifier := wellNamed.identifier name named
    refine ⟨?_, fun c member => ?_⟩
    · intro empty
      simp [empty, isIdentifier] at identifier
    · exact Or.inr (isQualifiedChar_of_isQualifiedWord
        (isQualifiedWord_of_isIdentifier identifier) c member)

theorem written_parameter {scope : TypeScope} (wellNamed : WellNamed scope) {owner : Owner}
    {index : Int} {name : String} {nullable : Bool}
    (means : word? scope name.toList = some (.parameter owner index name nullable)) :
    Written name.toList := by
  obtain ⟨filled, plain⟩ := plain_parameter wellNamed means
  apply Written.of_solid filled
  · intro c member
    rcases plain c member with rfl | word
    · decide
    · exact isBlank_of_isQualifiedChar word
  · apply Closed.of_plain
    intro c member
    rcases plain c member with rfl | word
    · decide
    · exact plain_of_isQualifiedChar word

theorem written_rank {element : Ty} (written : Written (format element).toList) (rank : Int) :
    Written ((format element).toList ++ (rankText rank).toList) := by
  refine written.append_solid ?_ (closed_rankText rank)
  intro c member
  simp only [toList_rankText, List.cons_append, List.mem_cons, List.mem_append,
    List.mem_replicate, List.not_mem_nil, or_false] at member
  rcases member with rfl | ⟨-, rfl⟩ | rfl <;> decide

/-- Everything that a type string can mean has the looks of a written type. -/
theorem written_format {scope : TypeScope} (wellNamed : WellNamed scope) {type : Ty}
    (readable : Readable scope type) : Written (format type).toList := by
  induction readable with
  | @named ns name args nullable qualified undotted inner ih =>
    simp only [format, String.toList_append]
    -- the arguments are written types by induction, so the brackets close around them
    exact ((Written.of_qualified qualified).arguments ih).annotated nullable
  | @parameter owner index name nullable means =>
    simp only [format, String.toList_append]
    exact (written_parameter wellNamed means).annotated nullable
  | @array element rank nullable positive inner ih =>
    simp only [format, String.toList_append]
    exact (written_rank ih rank).annotated nullable
  | @reference element inner ih =>
    simp only [format, String.toList_append]
    exact ih.append_solid (by simp; decide) (Closed.of_plain (by simp; decide))
  | @tuple elements names several identifiers inner ih =>
    rw [toList_format_tuple]
    exact Written.tuple fun element => writtenElement_of_mem identifiers ih
  | nativeInteger unsigned => cases unsigned <;> exact Written.of_qualified (by decide)
  | dynamic nullable =>
    simp only [format, String.toList_append]
    exact (Written.of_qualified (by decide)).annotated nullable

end Ty

end MemberOrigin
