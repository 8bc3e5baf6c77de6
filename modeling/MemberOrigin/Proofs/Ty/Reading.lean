import MemberOrigin.Proofs.Ty.Written

/-!
# Reading the outermost notation

What one step of reading does with a written type. Its last characters decide the shape, and the
texts inside the shape are the written parts. A name is read as a name if it is not taken, and an
instantiation is never mistaken for a word.
-/
namespace MemberOrigin.Ty

open Text

/-! ### Shapes of written types -/

theorem shape_reference (text : List Char) : shape (text ++ ['&']) = .reference text := by
  simp [shape]

theorem shape_optional (text : List Char) : shape (text ++ ['?']) = .optional (trim text) := by
  simp [shape]

theorem arraySuffix?_brackets {text : List Char} (oneLine : text.any isLineBreak = false)
    (commas : Nat) :
    arraySuffix? (text ++ ('[' :: List.replicate commas ',' ++ [']'])) = some (text, commas) := by
  have reversed : (text ++ ('[' :: List.replicate commas ',' ++ [']'])).reverse =
      ']' :: (List.replicate commas ',' ++ '[' :: text.reverse) := by
    simp
  have passed : ∀ c ∈ List.replicate commas ',', (c == ',') = true := by
    simp [List.mem_replicate]
  simp only [arraySuffix?, reversed, List.takeWhile_append_of_pos passed,
    List.dropWhile_append_of_pos passed]
  simp [oneLine]

theorem arraySuffix?_eq_none {text : List Char} {c : Char} (other : c ≠ ']') :
    arraySuffix? (text ++ [c]) = none := by
  simp [arraySuffix?, other]

/-- Brackets inside brackets are no suffix of an array. -/
theorem arraySuffix?_double (text : List Char) : arraySuffix? (text ++ [']'] ++ [']']) = none := by
  simp [arraySuffix?]

/-- A text that ends neither in `&` nor in `?` is looked at for brackets, then for parentheses. -/
theorem shape_of_last {text : List Char} {c : Char} (last : text.getLast? = some c)
    (notReference : c ≠ '&') (notOptional : c ≠ '?') :
    shape text = match arraySuffix? text with
      | some (element, commas) => .array element (commas + 1)
      | none =>
        match parenthesized? text with
        | some inside => .tuple (splitArguments inside)
        | none => .atom := by
  simp only [shape, last]
  split
  · simp_all
  · simp_all
  · rfl

theorem shape_array {text : List Char} (oneLine : text.any isLineBreak = false) (commas : Nat) :
    shape (text ++ ('[' :: List.replicate commas ',' ++ [']'])) = .array text (commas + 1) := by
  have last : (text ++ ('[' :: List.replicate commas ',' ++ [']'])).getLast? = some ']' := by
    rw [← List.append_assoc, List.getLast?_concat]
  rw [shape_of_last last (by decide) (by decide), arraySuffix?_brackets oneLine commas]

theorem shape_tuple (inside : List Char) :
    shape ('(' :: inside ++ [')']) = .tuple (splitArguments inside) := by
  have inner : parenthesized? ('(' :: inside ++ [')']) = some inside := by
    simp [parenthesized?]
  rw [shape_of_last List.getLast?_concat (by decide) (by decide),
    arraySuffix?_eq_none (by decide), inner]

theorem shape_atom {text : List Char} (starts : ∀ c ∈ text.head?, c ≠ '(')
    (ends : ∀ c ∈ text.getLast?, c ≠ '&' ∧ c ≠ '?') (noArray : arraySuffix? text = none) :
    shape text = .atom := by
  have inner : parenthesized? text = none := by
    cases text with
    | nil => rfl
    | cons c rest =>
      have other : c ≠ '(' := starts c rfl
      simp [parenthesized?, other]
  cases last : text.getLast? with
  | none => simp only [shape, last, noArray, inner]
  | some c =>
    obtain ⟨notReference, notOptional⟩ := ends c last
    rw [shape_of_last last notReference notOptional, noArray, inner]

/-- Words and positions have no shape but their own. -/
theorem shape_word {text : List Char} (plain : ∀ c ∈ text, c = '!' ∨ isQualifiedChar c = true) :
    shape text = .atom := by
  -- a character with a meaning of its own does not occur in the text
  have other (d : Char) (mark : '!' ≠ d) (special : isQualifiedChar d = false) : d ∉ text := by
    intro member
    rcases plain d member with rfl | word
    · exact mark rfl
    · simp [special] at word
  refine shape_atom ?_ ?_ ?_
  · rintro c head rfl
    exact other '(' (by decide) (by decide) (List.mem_of_head? head)
  · intro c last
    have member := List.mem_of_getLast? last
    constructor
    · rintro rfl
      exact other '&' (by decide) (by decide) member
    · rintro rfl
      exact other '?' (by decide) (by decide) member
  · rcases List.eq_nil_or_concat text with rfl | ⟨front, c, rfl⟩
    · rfl
    · rw [List.concat_eq_append]
      refine arraySuffix?_eq_none ?_
      rintro rfl
      exact other ']' (by decide) (by decide) (by simp)

/-! ### Names -/

theorem isWordStart_of_head? {text : List Char} (qualified : isQualifiedWord text = true) :
    ∀ c ∈ text.head?, isWordStart c = true := by
  intro c head
  cases text with
  | nil => simp at head
  | cons first rest =>
    obtain rfl : first = c := by simpa using head
    simp only [isQualifiedWord, Bool.and_eq_true] at qualified
    exact qualified.1

theorem head?_ne_of_qualified {text : List Char} {d : Char}
    (qualified : isQualifiedWord text = true) (special : isWordStart d = false) :
    ∀ c ∈ text.head?, c ≠ d := by
  rintro c head rfl
  simp [isWordStart_of_head? qualified c head] at special

theorem isWordChar_of_mem_builtinWords {word : String} (builtin : word ∈ builtinWords) :
    ∀ c ∈ word.toList, isWordChar c = true := by
  have all : builtinWords.all (fun word => word.toList.all isWordChar) = true := by decide
  exact List.all_eq_true.mp (List.all_eq_true.mp all word builtin)

/-- A word with a character of the notation is no builtin word. -/
theorem notBuiltin_of_mem {word : String} {c : Char} (member : c ∈ word.toList)
    (special : isWordChar c = false) : word ∉ builtinWords := by
  intro builtin
  simp [isWordChar_of_mem_builtinWords builtin c member] at special

/-- The words that a name cannot be are made of word characters. -/
theorem isWordChar_of_mem_takenWords {scope : TypeScope} (wellNamed : WellNamed scope)
    {word : String} (taken : word ∈ takenWords scope) : ∀ c ∈ word.toList, isWordChar c = true := by
  have reserved : reservedWords.all (fun word => word.toList.all isWordChar) = true := by decide
  simp only [takenWords, List.mem_append] at taken
  rcases taken with (builtin | name) | other
  · exact isWordChar_of_mem_builtinWords builtin
  · exact isWordChar_of_isIdentifier (wellNamed.identifier word name)
  · exact List.all_eq_true.mp (List.all_eq_true.mp reserved word other)

theorem mem_takenWords_of_builtin {scope : TypeScope} {word : String}
    (builtin : word ∈ builtinWords) :
    word ∈ takenWords scope :=
  List.mem_append_left _ (List.mem_append_left _ builtin)

theorem not_taken_of_mem {scope : TypeScope} (wellNamed : WellNamed scope) {text : List Char}
    {c : Char} (member : c ∈ text) (special : isWordChar c = false) :
    String.ofList text ∉ takenWords scope := by
  intro taken
  have word := isWordChar_of_mem_takenWords wellNamed taken c (by simpa using member)
  simp [special] at word

theorem keyword_lookup_eq_none {word : String} (free : word ∉ builtinWords) :
    keywords.lookup word = none := by
  rw [List.lookup_eq_none_iff]
  intro entry member
  have inWords : entry.1 ∈ builtinWords :=
    List.mem_append_left _ (List.mem_map_of_mem member)
  rw [bne_iff_ne]
  rintro rfl
  exact free inWords

theorem valueKeyword?_eq_none {word : String} (free : word ∉ builtinWords) :
    valueKeyword? word = none := by
  simp [valueKeyword?, keyword_lookup_eq_none free]

theorem builtin?_eq_none {word : String} (free : word ∉ builtinWords) : builtin? word = none := by
  have others : word ≠ "dynamic" ∧ word ≠ "nint" ∧ word ≠ "nuint" := by
    refine ⟨?_, ?_, ?_⟩ <;> rintro rfl <;> exact free (by decide)
  simp [builtin?, keyword?, keyword_lookup_eq_none free, others]

theorem inScope?_eq_none {scope : TypeScope} {word : String} (free : word ∉ scope.names) :
    inScope? scope word = none := by
  rw [Option.eq_none_iff_forall_ne_some]
  intro type found
  exact free (mem_names_of_inScope? found)

theorem positional?_eq_none {scope : TypeScope} {text : List Char}
    (starts : ∀ c ∈ text.head?, c ≠ '!') : positional? scope text = none := by
  cases text with
  | nil => rfl
  | cons c rest =>
    have other : c ≠ '!' := starts c rfl
    simp only [positional?]
    split <;> simp_all

/-- A name of the scope means the parameter at its position. -/
theorem inScope?_of_getElem? {scope : TypeScope} (wellNamed : WellNamed scope) {owner : Owner}
    {index : Nat} {name : String} (found : (scope.parameters owner)[index]? = some name) :
    inScope? scope name = some (.parameter owner index name false) := by
  obtain ⟨typeDistinct, methodDistinct, apart⟩ := List.nodup_append.mp wellNamed.distinct
  obtain ⟨inside, here⟩ := List.getElem?_eq_some_iff.mp found
  have first {names : List String} (distinct : names.Nodup) (bound : index < names.length)
      (at_ : names[index] = name) : names.idxOf? name = some index := by
    refine List.idxOf?_eq_some_iff.mpr ⟨bound, at_, fun j before equal => ?_⟩
    have position := (List.getElem_inj distinct).mp (equal.trans at_.symm)
    omega
  cases owner with
  | method => simp [inScope?, first methodDistinct inside here]
  | type =>
    -- the parameters of the method are looked at first, and the names are distinct
    have absent : scope.methodTypeParameters.idxOf? name = none := by
      refine List.idxOf?_eq_none_iff.mpr fun member => ?_
      exact apart name (List.mem_of_getElem? found) name member rfl
    simp [inScope?, absent, first typeDistinct inside here]

theorem positionOf_of_small {index : Nat} (small : index < Nat.pow 2 53) :
    positionOf index = index := by
  simp [positionOf, Number.roundNat, Binary64.significandBound, small]

/-- A position past the names of the scope means the parameter that is written by it. -/
theorem positional?_nameAt {scope : TypeScope} {owner : Owner} {index : Nat}
    (small : index < Nat.pow 2 53) (past : (scope.parameters owner)[index]? = none)
    (text : (scope.nameAt owner index).toList = owner.mark.toList ++ Nat.toDigits 10 index) :
    positional? scope (scope.nameAt owner index).toList =
      some (.parameter owner index (scope.nameAt owner index) false) := by
  have word : String.ofList (owner.mark.toList ++ Nat.toDigits 10 index) =
      scope.nameAt owner index := by
    rw [← text, String.ofList_toList]
  rw [text]
  cases owner with
  | method =>
    simp only [TypeScope.parameters] at past
    simp only [Owner.mark, String.reduceToList, List.cons_append, List.nil_append] at word ⊢
    simp [positional?, natural?_toDigits, positionOf_of_small small, past, word]
  | type =>
    simp only [TypeScope.parameters] at past
    simp only [Owner.mark, String.reduceToList, List.cons_append, List.nil_append] at word ⊢
    -- one mark is not taken for two, because a digit follows it
    have single (rest : List Char) : Nat.toDigits 10 index ≠ '!' :: rest := by
      intro marked
      have digit := isDigit_of_mem_toDigits (n := index) (c := '!') (by simp [marked])
      exact absurd digit (by decide)
    have unmarked : positional? scope ('!' :: Nat.toDigits 10 index) =
        (natural? (Nat.toDigits 10 index)).map fun n => .parameter .type (positionOf n)
          (scope.typeParameters[positionOf n]?.getD
            (String.ofList ('!' :: Nat.toDigits 10 index))) false := by
      rw [positional?]
      exact single
    rw [unmarked]
    simp [natural?_toDigits, positionOf_of_small small, past, word]

theorem word?_of_getElem? {scope : TypeScope} (wellNamed : WellNamed scope) {owner : Owner}
    {index : Nat} {name : String} (found : (scope.parameters owner)[index]? = some name) :
    word? scope name.toList = some (.parameter owner index name false) := by
  have member := TypeScope.mem_names (List.mem_of_getElem? found)
  have qualified := isQualifiedWord_of_isIdentifier (wellNamed.identifier _ member)
  simp [word?, positional?_eq_none (head?_ne_of_qualified qualified (by decide)),
    inScope?_of_getElem? wellNamed found]

/-- What the parameter at a position is written by means this parameter. -/
theorem word?_nameAt {scope : TypeScope} (wellNamed : WellNamed scope) (owner : Owner)
    {index : Nat} (small : index < Nat.pow 2 53) :
    word? scope (scope.nameAt owner index).toList =
      some (.parameter owner index (scope.nameAt owner index) false) := by
  rcases nameAt_cases scope owner index with found | ⟨past, positional⟩
  · exact word?_of_getElem? wellNamed found
  · simp [word?, positional?_nameAt small past positional]

/-- What means a type parameter is no word with a meaning of its own. -/
theorem notBuiltin_of_parameter {scope : TypeScope} (wellNamed : WellNamed scope) {owner : Owner}
    {index : Int} {name : String} {nullable : Bool}
    (means : word? scope name.toList = some (.parameter owner index name nullable)) :
    name ∉ builtinWords := by
  rcases (meaning_of_word? means).parameter_cases with ⟨_, positional⟩ | named
  · intro builtin
    -- a position starts with an exclamation mark, and no builtin word does
    have word := isWordChar_of_mem_builtinWords builtin
    have unmarked : positional? scope name.toList = none := by
      apply positional?_eq_none
      rintro c head rfl
      exact absurd (word '!' (List.mem_of_head? head)) (by decide)
    cases unmarked.symm.trans positional
  · rw [String.ofList_toList] at named
    exact wellNamed.notBuiltin name named

/-- A well-formed type is what some type string means. -/
theorem WellFormed.readable {scope : TypeScope} (wellNamed : WellNamed scope) {type : Ty}
    (wellFormed : WellFormed scope type) : Readable scope type := by
  induction wellFormed with
  | named qualified undotted _ _ ih => exact .named qualified undotted ih
  | parameter small => exact .parameter (word?_nameAt wellNamed _ small)
  | array positive _ ih => exact .array positive ih
  | reference _ ih => exact .reference ih
  | tuple several identifiers _ ih => exact .tuple several identifiers ih
  | nativeInteger unsigned => exact .nativeInteger unsigned
  | dynamic nullable => exact .dynamic nullable

/-- A text that nothing else takes is a name or no word at all. -/
theorem word?_of_free {scope : TypeScope} {text : List Char} (starts : ∀ c ∈ text.head?, c ≠ '!')
    (free : String.ofList text ∉ takenWords scope) :
    word? scope text = if isQualifiedWord text then some (ofQualified text []) else none := by
  simp only [takenWords, List.mem_append, not_or] at free
  obtain ⟨⟨notBuiltin, notName⟩, notReserved⟩ := free
  simp [word?, positional?_eq_none starts, inScope?_eq_none notName, builtin?_eq_none notBuiltin,
    notReserved]

/-- A qualified name is divided at the dot in front of its last part. -/
theorem ofQualified_qualify {ns name : String} (undotted : '.' ∉ name.toList) (args : List Ty) :
    ofQualified (qualify ns name).toList args = .named ns name args false := by
  have solid : ∀ c ∈ name.toList.reverse, (c != '.') = true := by
    intro c member
    simp only [bne_iff_ne, ne_eq]
    rintro rfl
    exact undotted (List.mem_reverse.mp member)
  by_cases empty : ns = ""
  · subst empty
    have parts : splitQualified name.toList = ([], name.toList) := by
      simp [splitQualified, List.takeWhile_eq_self_iff.mpr solid]
    simp [qualify, ofQualified, parts]
  · have filled : ns.isEmpty = false := by
      simpa [String.isEmpty_iff] using empty
    have parts : splitQualified (ns.toList ++ '.' :: name.toList) = (ns.toList, name.toList) := by
      -- the last part is read from behind, up to the dot
      have reversed : (ns.toList ++ '.' :: name.toList).reverse =
          name.toList.reverse ++ '.' :: ns.toList.reverse := by simp
      have front : ns.toList.length + (name.toList.length + 1) - name.toList.length - 1 =
          ns.toList.length := by omega
      simp [splitQualified, reversed, List.takeWhile_append_of_pos solid, front]
    simp [qualify, filled, ofQualified, parts]

/-! ### Instantiations -/

/-- A name with the number of its arguments and, in double brackets, the arguments. -/
def instantiationChars (name : List Char) (arity : Nat) (content : List Char) : List Char :=
  name ++ ('\x60' :: Nat.toDigits 10 arity ++ ('[' :: ('[' :: content ++ [']']) ++ [']']))

theorem bracketed?_double {content : List Char} (filled : content ≠ [])
    (oneLine : content.any isLineBreak = false) :
    bracketed? ('[' :: '[' :: (content ++ [']', ']'])) = some content := by
  have reversed : (content ++ [']', ']']).reverse = ']' :: ']' :: content.reverse := by simp
  simp [bracketed?, reversed, filled, oneLine]

/-- An instantiation is read in its parts. -/
theorem instantiation?_chars {name content : List Char} (arity : Nat)
    (qualified : isQualifiedWord name = true) (filled : content ≠ [])
    (oneLine : content.any isLineBreak = false) :
    instantiation? (instantiationChars name arity content) =
      some ⟨name, arity, splitArguments content⟩ := by
  -- the name ends at the grave accent, and the number at the bracket behind it
  have plain : ∀ c ∈ name, (c != '\x60') = true := by
    intro c member
    rw [bne_iff_ne]
    rintro rfl
    have word := isQualifiedChar_of_isQualifiedWord qualified _ member
    exact absurd word (by decide)
  have digits : ∀ c ∈ Nat.toDigits 10 arity, c.isDigit = true :=
    fun c member => isDigit_of_mem_toDigits member
  simp [instantiationChars, instantiation?, List.takeWhile_append_of_pos plain,
    List.dropWhile_append_of_pos plain, List.takeWhile_append_of_pos digits,
    List.dropWhile_append_of_pos digits, natural?_toDigits, bracketed?_double filled oneLine,
    qualified]

theorem head?_instantiationChars {name content : List Char} {arity : Nat} {d : Char}
    (qualified : isQualifiedWord name = true) (special : isWordStart d = false) :
    ∀ c ∈ (instantiationChars name arity content).head?, c ≠ d := by
  intro c head
  cases name with
  | nil => simp [isQualifiedWord] at qualified
  | cons first rest =>
    exact head?_ne_of_qualified qualified special c (by simpa [instantiationChars] using head)

theorem shape_instantiationChars {name content : List Char} {arity : Nat}
    (qualified : isQualifiedWord name = true) :
    shape (instantiationChars name arity content) = .atom := by
  have ends : instantiationChars name arity content =
      (name ++ '\x60' :: Nat.toDigits 10 arity ++ '[' :: '[' :: content) ++ [']'] ++ [']'] := by
    simp [instantiationChars]
  refine shape_atom (head?_instantiationChars qualified (by decide)) ?_ ?_
  · intro c last
    rw [ends, List.getLast?_concat, Option.mem_some] at last
    exact last ▸ by decide
  · rw [ends, arraySuffix?_double]

theorem word?_instantiationChars {scope : TypeScope} (wellNamed : WellNamed scope)
    {name content : List Char} {arity : Nat} (qualified : isQualifiedWord name = true) :
    word? scope (instantiationChars name arity content) = none := by
  have grave : '\x60' ∈ instantiationChars name arity content := by simp [instantiationChars]
  -- the grave accent in front of the number is what no word and no name of a scope contains
  have unqualified : isQualifiedWord (instantiationChars name arity content) = false := by
    cases word : isQualifiedWord (instantiationChars name arity content) with
    | false => rfl
    | true => exact absurd (isQualifiedChar_of_isQualifiedWord word _ grave) (by decide)
  rw [word?_of_free (head?_instantiationChars qualified (by decide))
    (not_taken_of_mem wellNamed grave (by decide)), unqualified]
  simp

/-! ### Tuple elements -/

/-- An element with a name is divided at the blank in front of the name. -/
theorem elementParts_named {text name : List Char} (written : Written text)
    (identifier : isIdentifier name = true) :
    elementParts (text ++ ' ' :: name) = (text, some name) := by
  -- the name is what stands behind the last blank
  have solid : ∀ c ∈ name.reverse, (! isBlank c) = true := by
    intro c member
    have word := isWordChar_of_isIdentifier identifier c (List.mem_reverse.mp member)
    simp [isBlank_of_isWordChar word]
  have reversed : (text ++ ' ' :: name).reverse = name.reverse ++ ' ' :: text.reverse := by simp
  have space : isBlank ' ' = true := by decide
  have kept : text.reverse.dropWhile isBlank = text.reverse := by
    cases back : text.reverse with
    | nil => rfl
    | cons c rest =>
      have last : text.getLast? = some c := by simp [← List.head?_reverse, back]
      simp [written.ends c last]
  simp only [elementParts, reversed, List.takeWhile_append_of_pos solid,
    List.dropWhile_append_of_pos solid]
  simp [space, kept, identifier, written.filled, written.oneLine]

/-- An element without a name is not divided: behind its last blank a parenthesis closes. -/
theorem elementParts_unnamed {text : List Char} (written : Written text) :
    elementParts text = (text, none) := by
  simp only [elementParts]
  split
  next divided =>
    simp only [Bool.and_eq_true, Bool.not_eq_true', List.isEmpty_eq_false_iff, ne_eq,
      List.reverse_eq_nil_iff] at divided
    obtain ⟨⟨identifier, front⟩, -⟩ := divided
    -- the blank in front of the last word is enclosed, so that word has to hold a parenthesis
    have halves := List.takeWhile_append_dropWhile (p := (! isBlank ·)) (l := text.reverse)
    cases back : text.reverse.dropWhile (! isBlank ·) with
    | nil => simp [back] at front
    | cons c rest =>
      have blank : isBlank c = true := by
        have first := List.head?_dropWhile_not (! isBlank ·) text.reverse
        simpa [back] using first
      rw [back] at halves
      have whole := congrArg List.reverse halves
      simp only [List.reverse_append, List.reverse_cons, List.reverse_reverse, List.append_assoc,
        List.singleton_append] at whole
      have closes := (written.enclosed _ c _ whole.symm blank).2
      have word := isWordChar_of_isIdentifier identifier _ closes
      exact absurd word (by decide)
  · rfl

theorem elementParts_elementChars {element : Ty × Option String}
    (written : WrittenElement element) :
    elementParts (elementChars element) =
      ((format element.1).toList, element.2.map String.toList) := by
  obtain ⟨type, name⟩ := element
  obtain ⟨whole, identifier⟩ := written
  cases name with
  | none => exact elementParts_unnamed whole
  | some name =>
    rw [elementChars_named (identifier name rfl)]
    exact elementParts_named whole (identifier name rfl)

/-! ### One step of reading -/

theorem parseChars_reference {scope : TypeScope} {text : List Char}
    (written : Written (text ++ ['&'])) :
    parseChars scope (text ++ ['&']) = (parseChars scope text).map .reference := by
  rw [parseChars_eq, written.trimmed, shape_reference]
  simp [written.filled]

theorem parseChars_optional {scope : TypeScope} {text : List Char} (written : Written text) :
    parseChars scope (text ++ ['?']) =
      match valueKeyword? (String.ofList text) with
      | some type => some (nullableOf type)
      | none => (parseChars scope text).bind annotate? := by
  have whole : Written (text ++ ['?']) := by
    simpa [toList_nullableMark] using written.annotated true
  have read := parseChars_eq scope (text ++ ['?'])
  rw [whole.trimmed, shape_optional, written.trimmed, if_neg (by simp)] at read
  exact read

/-- A question mark behind a text that is no keyword annotates what the text means. -/
theorem parseChars_annotated {scope : TypeScope} {text : List Char} (written : Written text)
    (free : String.ofList text ∉ builtinWords) (nullable : Bool) :
    parseChars scope (text ++ (nullableMark nullable).toList) =
      (parseChars scope text).bind fun type => if nullable then annotate? type else some type := by
  rw [toList_nullableMark]
  cases nullable with
  | false => simp
  | true => simp [parseChars_optional written, valueKeyword?_eq_none free]

theorem parseChars_array {scope : TypeScope} {text : List Char} (written : Written text)
    {commas : Nat} (whole : Written (text ++ ('[' :: List.replicate commas ',' ++ [']']))) :
    parseChars scope (text ++ ('[' :: List.replicate commas ',' ++ [']'])) =
      (parseChars scope text).map (.array · (commas + 1 : Nat) false) := by
  rw [parseChars_eq, whole.trimmed, shape_array written.oneLine]
  simp

theorem parseChars_tuple {scope : TypeScope} {inside : List Char}
    (whole : Written ('(' :: inside ++ [')'])) :
    parseChars scope ('(' :: inside ++ [')']) =
      tuple? ((splitArguments inside).map elementParts)
        (allSome ((splitArguments inside).map fun element =>
          parseChars scope (elementParts element).1)) := by
  rw [parseChars_eq, whole.trimmed, shape_tuple]
  simp

theorem parseChars_word {scope : TypeScope} {text : List Char} {type : Ty} (whole : Written text)
    (atom : shape text = .atom) (word : word? scope text = some type) :
    parseChars scope text = some type := by
  rw [parseChars_eq, whole.trimmed, atom]
  simp [whole.filled, word]

/-- Names and positions mean what they mean as a word. -/
theorem parseChars_plain {scope : TypeScope} {text : List Char} (whole : Written text)
    (plain : ∀ c ∈ text, c = '!' ∨ isQualifiedChar c = true) :
    parseChars scope text = word? scope text := by
  -- an instantiation has a grave accent behind its name
  have solid : ∀ c ∈ text, (c != '\x60') = true := by
    intro c member
    rw [bne_iff_ne]
    rintro rfl
    rcases plain _ member with mark | word
    · exact absurd mark (by decide)
    · exact absurd word (by decide)
  have noParts : instantiation? text = none := by
    simp [instantiation?, List.dropWhile_eq_nil_iff.mpr solid]
  cases found : word? scope text with
  | some type => exact parseChars_word whole (shape_word plain) found
  | none =>
    rw [parseChars_eq, whole.trimmed, shape_word plain]
    simp [found, noParts]

/-- A word with a meaning of its own keeps it, since no name of the scope hides it. -/
theorem parseChars_builtin {scope : TypeScope} (wellNamed : WellNamed scope) (word : String)
    {type : Ty} (member : word ∈ builtinWords) (meaning : builtin? word = some type) :
    parseChars scope word.toList = some type := by
  have words : builtinWords.all (fun word => isQualifiedWord word.toList) = true := by decide
  have qualified := List.all_eq_true.mp words word member
  have free : word ∉ scope.names := fun name => wellNamed.notBuiltin word name member
  refine parseChars_word (Written.of_qualified qualified)
    (shape_word fun c inWord => Or.inr (isQualifiedChar_of_isQualifiedWord qualified c inWord)) ?_
  simp [word?, positional?_eq_none (head?_ne_of_qualified qualified (by decide)),
    inScope?_eq_none free, meaning]

theorem parseChars_instantiation {scope : TypeScope} {text : List Char} {parts : Instantiation}
    (whole : Written text) (atom : shape text = .atom) (noWord : word? scope text = none)
    (parsed : instantiation? text = some parts) :
    parseChars scope text =
      instantiate? parts (allSome (parts.arguments.map (parseChars scope))) := by
  rw [parseChars_eq, whole.trimmed, atom]
  simp [whole.filled, noWord, parsed]

end MemberOrigin.Ty
