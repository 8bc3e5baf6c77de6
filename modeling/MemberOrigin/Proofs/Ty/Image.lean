import Mathlib.Tactic.Choose
import MemberOrigin.Proofs.Ty.Reading

/-!
# What type strings mean

`Reads` says what one accepted text can mean, form by form: a part of the text is a stretch of it,
and a list of arguments is empty only behind the number zero. From this follows what the accepted
texts mean at all (`Reads.readable`).
-/
namespace MemberOrigin.Ty

open Text

/-! ### Stretches of a text -/

theorem reverse_infix_of_suffix {front text : List Char} (behind : front <:+ text.reverse) :
    front.reverse <:+: text := by
  rw [← List.reverse_prefix, List.reverse_reverse] at behind
  exact behind.isInfix

theorem trim_infix_self (text : List Char) : trim text <:+: text :=
  (reverse_infix_of_suffix (List.dropWhile_suffix isBlank)).trans
    (List.dropWhile_suffix isBlank).isInfix

/-- The text up to the first cut starts the text, and the pieces behind it are stretches of it. -/
theorem infix_of_cutAtCommas (depth : Int) (text : List Char) :
    (cutAtCommas depth text).1 <+: text ∧
      ∀ piece ∈ (cutAtCommas depth text).2, piece <:+: text := by
  -- only the first piece can start at the first character; the others come from the rest
  induction text generalizing depth with
  | nil => simp [cutAtCommas]
  | cons c rest ih =>
    obtain ⟨first, others⟩ := ih (depth + bracketStep c)
    have behind {piece : List Char} (inRest : piece <:+: rest) : piece <:+: c :: rest :=
      inRest.trans (List.suffix_cons c rest).isInfix
    simp only [cutAtCommas]
    split
    · refine ⟨List.nil_prefix, fun piece member => ?_⟩
      rcases List.mem_cons.mp member with rfl | member
      · exact behind first.isInfix
      · exact behind (others piece member)
    · exact ⟨List.cons_prefix_cons.mpr ⟨rfl, first⟩, fun piece member =>
        behind (others piece member)⟩

theorem infix_of_splitArguments {text piece : List Char} (member : piece ∈ splitArguments text) :
    piece <:+: text := by
  have inTrimmed : piece ∈ (pieces text).map trim := by
    simp only [splitArguments] at member
    split at member
    · exact (List.dropLast_sublist _).subset member
    · exact member
  obtain ⟨whole, inPieces, rfl⟩ := List.mem_map.mp inTrimmed
  obtain ⟨first, others⟩ := infix_of_cutAtCommas 0 text
  rcases List.mem_cons.mp inPieces with rfl | inPieces
  · exact (trim_infix_self _).trans first.isInfix
  · exact (trim_infix_self _).trans (others whole inPieces)

theorem infix_of_arraySuffix? {text element : List Char} {commas : Nat}
    (found : arraySuffix? text = some (element, commas)) : element <:+: text := by
  simp only [arraySuffix?] at found
  split at found
  next rest reversed =>
    split at found
    next front after =>
      split at found
      · cases found
      · cases found
        -- the suffix is read from behind, so the element is a suffix of the reversed text
        have inRest : front <:+ rest :=
          (List.suffix_cons '[' front).trans (after ▸ List.dropWhile_suffix _)
        have inText : front <:+ text.reverse :=
          inRest.trans (reversed ▸ List.suffix_cons ']' rest)
        exact reverse_infix_of_suffix inText
    · cases found
  · cases found

theorem infix_of_parenthesized? {text inside : List Char}
    (found : parenthesized? text = some inside) : inside <:+: text := by
  simp only [parenthesized?] at found
  split at found
  next rest =>
    split at found
    · cases found
      exact (List.dropLast_prefix rest).isInfix.trans (List.suffix_cons '(' rest).isInfix
    · cases found
  · cases found

theorem infix_of_parts {text part : List Char} (member : part ∈ (shape text).parts) :
    part <:+: text := by
  -- a shape takes marks off the end, or splits what is inside of parentheses
  simp only [shape] at member
  split at member
  · simp only [Shape.parts, List.mem_singleton] at member
    exact member ▸ (List.dropLast_prefix text).isInfix
  · simp only [Shape.parts, List.mem_singleton] at member
    exact member ▸ (trim_infix_self _).trans (List.dropLast_prefix text).isInfix
  · split at member
    next element commas found =>
      simp only [Shape.parts, List.mem_singleton] at member
      exact member ▸ infix_of_arraySuffix? found
    · split at member
      next inside found =>
        exact (infix_of_splitArguments member).trans (infix_of_parenthesized? found)
      · simp [Shape.parts] at member

theorem infix_of_elementParts (element : List Char) : (elementParts element).1 <:+: element := by
  simp only [elementParts]
  split
  · -- behind the name and the blanks, seen from the end
    apply reverse_infix_of_suffix
    exact (List.dropWhile_suffix isBlank).trans (List.dropWhile_suffix (! isBlank ·))
  · exact List.infix_rfl

theorem infix_of_bracketed? {text content : List Char} (found : bracketed? text = some content) :
    content <:+: text := by
  simp only [bracketed?] at found
  split at found
  next rest =>
    split at found
    next inner reversed =>
      split at found
      · cases found
      · cases found
        -- the content is between two brackets in front and two at the end
        have inRest : inner <:+ rest.reverse :=
          reversed ▸ (List.suffix_cons ']' inner).trans (List.suffix_cons ']' _)
        exact (reverse_infix_of_suffix inRest).trans
          ((List.suffix_cons '[' rest).trans (List.suffix_cons '[' _)).isInfix
    · cases found
  · cases found

/-- A run of digits whose value is zero starts with a zero. -/
theorem head?_of_natural?_zero {digits : List Char} (value : natural? digits = some 0) :
    digits.head? = some '0' := by
  -- reading on never makes the value smaller, so the first digit counts for nothing
  have grows (rest : List Char) (start : Nat) : start ≤
      rest.foldl (fun value digit => value * 10 + (digit.toNat - '0'.toNat)) start := by
    induction rest generalizing start with
    | nil => exact Nat.le_refl start
    | cons c rest ih =>
      have step := ih (start * 10 + (c.toNat - '0'.toNat))
      simp only [List.foldl_cons]
      omega
  simp only [natural?] at value
  split at value
  next digital =>
    cases digits with
    | nil => simp at digital
    | cons first rest =>
      simp only [List.all_cons, Bool.and_eq_true] at digital
      have first_zero : first.toNat - '0'.toNat = 0 := by
        have bound := grows rest (0 * 10 + (first.toNat - '0'.toNat))
        simp only [decimalValue, List.foldl_cons, Option.some.injEq] at value
        omega
      have low : '0'.toNat ≤ first.toNat := by
        have digit := digital.2.1
        simp only [Char.isDigit, Bool.and_eq_true, decide_eq_true_eq] at digit
        exact UInt32.le_iff_toNat_le.mp digit.1
      have equal : first.toNat = '0'.toNat := by omega
      rw [List.head?_cons, Char.toNat_inj.mp equal]
  · cases value

/-- The parts of an instantiation: a name, and stretches of the text as arguments. An instantiation
over no arguments says so by the number zero. -/
theorem parts_of_instantiation? {text : List Char} {parts : Instantiation}
    (found : instantiation? text = some parts) :
    isQualifiedWord parts.name = true ∧ (∀ argument ∈ parts.arguments, argument <:+: text) ∧
      (parts.arity = 0 → ['\x60', '0'] <:+: text) := by
  simp only [instantiation?] at found
  split at found
  next grave rest after =>
    have behind : grave :: rest <:+ text := after ▸ List.dropWhile_suffix _
    split at found
    next arity content number brackets =>
      split at found
      next qualified =>
        cases found
        refine ⟨qualified, fun argument member => ?_, ?_⟩
        · have inContent := infix_of_splitArguments member
          have inRest := (infix_of_bracketed? brackets).trans (List.dropWhile_suffix _).isInfix
          have inText := (List.suffix_cons grave rest).trans behind
          exact (inContent.trans inRest).trans inText.isInfix
        · -- the arity is read from the digits behind the grave accent
          rintro rfl
          have digits := head?_of_natural?_zero number
          have first : rest.head? = some '0' := by
            cases rest with
            | nil => simp at digits
            | cons c rest =>
              cases digit : c.isDigit with
              | true => simpa [digit] using digits
              | false => simp [digit] at digits
          obtain rfl : grave = '\x60' := by
            have stopped := List.head?_dropWhile_not (· != '\x60') text
            simpa [after] using stopped
          obtain ⟨more, rfl⟩ := List.head?_eq_some_iff.mp first
          exact (List.prefix_append ['\x60', '0'] more).isInfix.trans behind.isInfix
      · cases found
    · cases found
  · cases found

/-! ### One step of reading -/

theorem allSome_eq_some_iff {α : Type} {options : List (Option α)} {values : List α} :
    allSome options = some values ↔ options = values.map some := by
  induction options generalizing values with
  | nil => cases values <;> simp [allSome]
  | cons option rest ih =>
    cases option with
    | none => cases values <;> simp [allSome]
    | some value => cases values <;> simp [allSome, ih, and_comm, and_assoc]

theorem exists_of_mem_allSome {α β : Type} {read : α → Option β} {texts : List α} {values : List β}
    (all : allSome (texts.map read) = some values) {value : β} (member : value ∈ values) :
    ∃ text ∈ texts, read text = some value := by
  rw [allSome_eq_some_iff] at all
  have found : some value ∈ texts.map read := all ▸ List.mem_map_of_mem member
  exact List.mem_map.mp found

theorem isIdentifier_of_elementParts {element name : List Char}
    (named : (elementParts element).2 = some name) : isIdentifier name = true := by
  simp only [elementParts] at named
  split at named
  next divided =>
    cases named
    simp only [Bool.and_eq_true] at divided
    exact divided.1.1
  · cases named

theorem one_le_rank_of_shape {text element : List Char} {rank : Nat}
    (form : shape text = .array element rank) : 1 ≤ rank := by
  simp only [shape] at form
  split at form
  · cases form
  · cases form
  · split at form
    · cases form
      omega
    · split at form <;> cases form

theorem exists_of_tuple? {parts : List (List Char × Option (List Char))}
    {types : Option (List Ty)} {type : Ty} (found : tuple? parts types = some type) :
    ∃ elements names, types = some elements ∧ type = .tuple elements names ∧ 2 ≤ parts.length ∧
      ∀ i name, elementName names i = some name →
        ∃ part ∈ parts, ∃ word, part.2 = some word ∧ name = String.ofList word := by
  unfold tuple? at found
  split at found
  · cases found
  next several =>
    obtain ⟨elements, rfl, rfl⟩ := Option.map_eq_some_iff.mp found
    refine ⟨elements, _, rfl, rfl, by omega, fun i name given => ?_⟩
    -- the names are dropped if no element has one
    split at given
    · simp only [elementName, Option.join_eq_some_iff, List.getElem?_map,
        Option.map_eq_some_iff] at given
      obtain ⟨part, listed, word, named, rfl⟩ := given
      exact ⟨part, List.mem_of_getElem? listed, word, named, rfl⟩
    · simp [elementName] at given

/-- What a text can mean in a scope. The parts of a list are stretches of the text; `source` says
which stretch a part was read from. -/
inductive Reads (scope : TypeScope) : List Char → Ty → Prop
  | reference {text part : List Char} {element : Ty} (inside : part <:+: text)
      (inner : Reads scope part element) : Reads scope text (.reference element)
  | nullableValue {text : List Char} {word name : String}
      (listed : keywords.lookup word = some (name, true)) :
      Reads scope text (nullableOf (system name))
  | annotated {text part : List Char} {type annotated : Ty} (inside : part <:+: text)
      (inner : Reads scope part type) (carries : annotate? type = some annotated) :
      Reads scope text annotated
  | array {text part : List Char} {element : Ty} {rank : Nat} (positive : 1 ≤ rank)
      (inside : part <:+: text) (inner : Reads scope part element) :
      Reads scope text (.array element rank false)
  | tuple {text : List Char} {elements : List Ty} {names : List (Option String)}
      (several : 2 ≤ elements.length)
      (identifiers : ∀ i name, elementName names i = some name → isIdentifier name.toList = true)
      (source : Ty → List Char) (inside : ∀ element ∈ elements, source element <:+: text)
      (inner : ∀ element ∈ elements, Reads scope (source element) element) :
      Reads scope text (.tuple elements names)
  | word {text : List Char} {type : Ty} (means : word? scope (trim text) = some type) :
      Reads scope text type
  | instantiation {text name : List Char} {args : List Ty} (qualified : isQualifiedWord name = true)
      (none : args = [] → ['\x60', '0'] <:+: text) (source : Ty → List Char)
      (inside : ∀ arg ∈ args, source arg <:+: text)
      (inner : ∀ arg ∈ args, Reads scope (source arg) arg) :
      Reads scope text (ofQualified name args)

section Step

variable {scope : TypeScope} {text : List Char}
  (ofPart : ∀ part, part.length < (trim text).length → part <:+: trim text → ∀ type,
    parseChars scope part = some type → part <:+: text ∧ Reads scope part type)

include ofPart

theorem reads_of_tuple? {elements : List (List Char)} {type : Ty}
    (form : shape (trim text) = .tuple elements)
    (parsed : tuple? (elements.map elementParts)
      (allSome (elements.map fun element => parseChars scope (elementParts element).1)) =
        some type) : Reads scope text type := by
  obtain ⟨reads, names, ofElements, rfl, several, given⟩ := exists_of_tuple? parsed
  have count := congrArg List.length (allSome_eq_some_iff.mp ofElements)
  simp only [List.length_map] at several count
  have ofEach : ∀ read, read ∈ reads → ∃ part, part <:+: text ∧ Reads scope part read := by
    intro read member
    obtain ⟨element, inElements, ofElement⟩ := exists_of_mem_allSome ofElements member
    have listed : element ∈ (shape (trim text)).parts := by
      simpa [form, Shape.parts] using inElements
    have short := length_elementParts_le element
    have shorter := length_parts_lt listed
    have inside := (infix_of_elementParts element).trans (infix_of_parts listed)
    exact ⟨_, ofPart _ (by omega) inside read ofElement⟩
  -- each element has a text that it was read from; any such choice of texts will do
  choose! source inside inner using ofEach
  refine .tuple (by omega) (fun i name named => ?_) source inside inner
  obtain ⟨part, inParts, word, named, rfl⟩ := given i name named
  obtain ⟨element, _, rfl⟩ := List.mem_map.mp inParts
  rw [String.toList_ofList]
  exact isIdentifier_of_elementParts named

theorem reads_of_instantiate? {parts : Instantiation} {type : Ty}
    (found : instantiation? (trim text) = some parts)
    (parsed : instantiate? parts (allSome (parts.arguments.map (parseChars scope))) = some type) :
    Reads scope text type := by
  obtain ⟨qualified, stretches, zero⟩ := parts_of_instantiation? found
  unfold instantiate? at parsed
  split at parsed
  next counted =>
    obtain ⟨args, ofArguments, rfl⟩ := Option.map_eq_some_iff.mp parsed
    have count := congrArg List.length (allSome_eq_some_iff.mp ofArguments)
    simp only [List.length_map] at count
    have ofEach : ∀ arg, arg ∈ args → ∃ part, part <:+: text ∧ Reads scope part arg := by
      intro arg member
      obtain ⟨argument, inArguments, ofArgument⟩ := exists_of_mem_allSome ofArguments member
      have shorter := length_instantiation? found argument inArguments
      exact ⟨argument, ofPart argument shorter (stretches argument inArguments) arg ofArgument⟩
    choose! source inside inner using ofEach
    refine .instantiation qualified ?_ source inside inner
    -- the number that is written is checked against the number of arguments
    rintro rfl
    rw [beq_iff_eq, count] at counted
    exact (zero counted.symm).trans (trim_infix_self text)
  · cases parsed

end Step

theorem reads_of_parseChars {scope : TypeScope} {text : List Char} {type : Ty}
    (parsed : parseChars scope text = some type) : Reads scope text type := by
  -- by induction on the length: the texts inside a text are shorter
  induction length : text.length using Nat.strong_induction_on generalizing text type with
  | _ n ih =>
    subst length
    -- what is read inside the text is covered by the hypothesis, whatever the form is
    have ofPart : ∀ part, part.length < (trim text).length → part <:+: trim text → ∀ type,
        parseChars scope part = some type → part <:+: text ∧ Reads scope part type := by
      intro part shorter inside type parsed
      have trimmed := length_trim_le text
      exact ⟨inside.trans (trim_infix_self text), ih part.length (by omega) parsed rfl⟩
    have ofShape {part : List Char} (member : part ∈ (shape (trim text)).parts) {type : Ty}
        (parsed : parseChars scope part = some type) : part <:+: text ∧ Reads scope part type :=
      ofPart part (length_parts_lt member) (infix_of_parts member) type parsed
    rw [parseChars_eq] at parsed
    split at parsed
    · cases parsed
    · split at parsed
      next element form =>
        obtain ⟨read, ofElement, rfl⟩ := Option.map_eq_some_iff.mp parsed
        obtain ⟨inside, inner⟩ := ofShape (by simp [form, Shape.parts]) ofElement
        exact .reference inside inner
      next inner form =>
        split at parsed
        next value keyword =>
          cases parsed
          -- `int?` is no annotation but a type of its own
          unfold valueKeyword? at keyword
          split at keyword
          next listed =>
            cases keyword
            exact .nullableValue listed
          · cases keyword
        · obtain ⟨read, ofInner, carries⟩ := Option.bind_eq_some_iff.mp parsed
          obtain ⟨inside, inner⟩ := ofShape (by simp [form, Shape.parts]) ofInner
          exact .annotated inside inner carries
      next element rank form =>
        obtain ⟨read, ofElement, rfl⟩ := Option.map_eq_some_iff.mp parsed
        obtain ⟨inside, inner⟩ := ofShape (by simp [form, Shape.parts]) ofElement
        exact .array (one_le_rank_of_shape form) inside inner
      next elements form => exact reads_of_tuple? ofPart form parsed
      next form =>
        split at parsed
        next word =>
          cases parsed
          exact .word word
        · split at parsed
          next parts found => exact reads_of_instantiate? ofPart found parsed
          · cases parsed

/-! ### The types that are read -/

/-- A qualified word has a last part, in front of which a namespace may stand. -/
theorem exists_qualify {word : List Char} (qualified : isQualifiedWord word = true) :
    ∃ ns name : String, word = (qualify ns name).toList ∧ '.' ∉ name.toList := by
  by_cases dotted : '.' ∈ word
  · -- the last dot is the first one from behind
    obtain ⟨name, ns, split, undotted⟩ :=
      List.eq_append_cons_of_mem (List.mem_reverse.mpr dotted)
    have whole : word = ns.reverse ++ '.' :: name.reverse := by
      have turned := congrArg List.reverse split
      simpa using turned
    have filled : ns ≠ [] := by
      rintro rfl
      exact head?_ne_of_qualified qualified (by decide) '.' (by simp [whole]) rfl
    have named : (String.ofList ns.reverse).isEmpty = false := by
      simpa [String.isEmpty_iff] using filled
    refine ⟨String.ofList ns.reverse, String.ofList name.reverse, ?_, by simpa using undotted⟩
    simp [qualify, named, whole]
  · exact ⟨"", String.ofList word, by simp [qualify], by simpa using dotted⟩

section Readable

variable {scope : TypeScope}

theorem readable_ofQualified {word : List Char} {args : List Ty}
    (qualified : isQualifiedWord word = true) (inner : ∀ arg ∈ args, Readable scope arg) :
    Readable scope (ofQualified word args) := by
  obtain ⟨ns, name, rfl, undotted⟩ := exists_qualify qualified
  rw [ofQualified_qualify undotted]
  exact .named qualified undotted inner

theorem readable_system {name : String} (identifier : isIdentifier name.toList = true) :
    Readable scope (system name) := by
  have word := isWordChar_of_isIdentifier identifier
  refine .named ?_ ?_ (by simp)
  · have qualified : (qualify "System" name).toList = 'S' :: ("ystem.".toList ++ name.toList) := by
      simp [qualify]
    rw [qualified]
    simp only [isQualifiedWord, Bool.and_eq_true, List.all_eq_true, List.mem_append]
    refine ⟨by decide, ?_⟩
    rintro c (front | member)
    · exact List.all_eq_true.mp (show "ystem.".toList.all isQualifiedChar = true by decide) c front
    · exact isQualifiedChar_of_isWordChar (word c member)
  · intro dot
    exact absurd (word _ dot) (by decide)

/-- Keywords stand for types with an identifier as their name. -/
theorem readable_of_lookup {word name : String} {isValue : Bool}
    (found : keywords.lookup word = some (name, isValue)) : Readable scope (system name) := by
  have all : keywords.all (fun entry => isIdentifier entry.2.1.toList) = true := by decide
  obtain ⟨front, back, split, -⟩ := List.lookup_eq_some_iff.mp found
  have member : (word, name, isValue) ∈ keywords := by simp [split]
  exact readable_system (List.all_eq_true.mp all _ member)

theorem readable_of_word? (wellNamed : WellNamed scope) {text : List Char} {type : Ty}
    (means : word? scope text = some type) : Readable scope type := by
  cases meaning_of_word? means with
  | @position owner index found =>
    -- a position within the scope takes the name that stands there
    cases named : (scope.parameters owner)[index]? with
    | some name => exact .parameter (word?_of_getElem? wellNamed named)
    | none =>
      rw [named, Option.getD_none] at found
      exact .parameter (by simp [word?, found])
  | parameter listed => exact .parameter (word?_of_getElem? wellNamed listed)
  | keyword listed => exact readable_of_lookup listed
  | dynamic => exact .dynamic false
  | nativeInteger unsigned => exact .nativeInteger unsigned
  | name _ qualified => exact readable_ofQualified qualified (by simp)

theorem readable_of_annotate? {type annotated : Ty} (readable : Readable scope type)
    (found : annotate? type = some annotated) : Readable scope annotated := by
  -- what can be annotated stays readable, as only the mark is new
  cases readable with
  | named qualified undotted inner =>
    cases found
    exact .named qualified undotted inner
  | parameter means =>
    cases found
    exact .parameter means
  | array positive inner =>
    cases found
    exact .array positive inner
  | dynamic =>
    cases found
    exact .dynamic true
  | reference | tuple | nativeInteger => cases found

theorem readable_nullableOf {type : Ty} (readable : Readable scope type) :
    Readable scope (nullableOf type) :=
  .named (by decide) (by decide) (by simpa using readable)

/-- Every accepted text means a readable type. -/
theorem Reads.readable (wellNamed : WellNamed scope) {text : List Char} {type : Ty}
    (reads : Reads scope text type) : Readable scope type := by
  induction reads with
  | reference _ _ ih => exact .reference ih
  | nullableValue listed => exact readable_nullableOf (readable_of_lookup listed)
  | annotated _ _ carries ih => exact readable_of_annotate? ih carries
  | array positive _ _ ih => exact .array (by omega) ih
  | tuple several identifiers _ _ _ ih =>
    exact .tuple several (fun i _ name named => identifiers i name named) ih
  | word means => exact readable_of_word? wellNamed means
  | instantiation qualified _ _ _ _ ih => exact readable_ofQualified qualified ih

end Readable

end MemberOrigin.Ty
