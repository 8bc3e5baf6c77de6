import MemberOrigin.Proofs.Ty.Reading
import MemberOrigin.Ty.Identity

/-!
# Reading what was written

## Main result

`parse?_format`: every well-formed type of a well-named scope is read back from its own notation.

## Proof strategy

Reading the notation of a form reads its parts, because written parts stay whole: this is one
equation for each form (`parseChars_format_name` and so on). By induction on the type the parts are
read back, and so is the form.
-/
namespace MemberOrigin.Ty

open Text

/-! ### The notation of each form -/

section Forms

variable {scope : TypeScope}

theorem toList_format_name (ns name : String) (nullable : Bool) :
    (format (.named ns name [] nullable)).toList =
      (qualify ns name).toList ++ (nullableMark nullable).toList := by
  simp [format, formatAll, argumentList]

/-- A name that is not taken is read as itself. -/
theorem parseChars_format_name {ns name : String} (nullable : Bool)
    (qualified : isQualifiedWord (qualify ns name).toList = true) (undotted : '.' ∉ name.toList)
    (free : qualify ns name ∉ takenWords scope) :
    parseChars scope (format (.named ns name [] nullable)).toList =
      some (.named ns name [] nullable) := by
  have plain := isQualifiedChar_of_isQualifiedWord qualified
  have unbuilt : String.ofList (qualify ns name).toList ∉ builtinWords := by
    rw [String.ofList_toList]
    exact fun builtin => free (mem_takenWords_of_builtin builtin)
  rw [toList_format_name, parseChars_annotated (Written.of_qualified qualified) unbuilt,
    parseChars_plain (Written.of_qualified qualified) fun c member => Or.inr (plain c member),
    word?_of_free (head?_ne_of_qualified qualified (by decide)) (by simpa using free),
    if_pos qualified, ofQualified_qualify undotted]
  cases nullable <;> rfl

/-- The arguments of a named type are read one by one. -/
theorem parseChars_format_instantiation (wellNamed : WellNamed scope) {ns name : String}
    {args : List Ty} (nullable : Bool) (some : args ≠ [])
    (qualified : isQualifiedWord (qualify ns name).toList = true) (undotted : '.' ∉ name.toList)
    (written : ∀ arg ∈ args, Written (format arg).toList) :
    parseChars scope (format (.named ns name args nullable)).toList =
      (allSome (args.map fun arg => parseChars scope (format arg).toList)).map
        (.named ns name · nullable) := by
  have texts : ∀ part ∈ args.map fun arg => (format arg).toList, Written part := by
    intro part member
    obtain ⟨arg, inArgs, rfl⟩ := List.mem_map.mp member
    exact written arg inArgs
  have text : (qualify ns name).toList ++ (argumentList (formatAll args)).toList =
      instantiationChars (qualify ns name).toList args.length
        ([','].intercalate (args.map fun arg => (format arg).toList)) := by
    rw [toList_argumentList some, instantiationChars]
  have whole := text ▸ (Written.of_qualified qualified).arguments written
  -- each written argument is closed, so the joined text is cut between the arguments only
  have split := splitArguments_intercalate [] (by simp)
    (fun part member => (texts part member).closed.passes)
    (fun part member => (texts part member).trimmed)
    (fun part member => (texts part member).filled)
  have filled : [','].intercalate (args.map fun arg => (format arg).toList) ≠ [] := by
    intro empty
    rw [empty] at split
    exact some (List.map_eq_nil_iff.mp (split.symm.trans (by decide)))
  have oneLine : ([','].intercalate (args.map fun arg => (format arg).toList)).any isLineBreak =
      false :=
    List.any_eq_false.mpr fun c member =>
      List.any_eq_false.mp whole.oneLine c (by simp [instantiationChars, member])
  have unbuilt : String.ofList (instantiationChars (qualify ns name).toList args.length
      ([','].intercalate (args.map fun arg => (format arg).toList))) ∉ builtinWords :=
    notBuiltin_of_mem (c := '\x60') (by simp [instantiationChars]) (by decide)
  have annotated : (format (.named ns name args nullable)).toList =
      instantiationChars (qualify ns name).toList args.length
        ([','].intercalate (args.map fun arg => (format arg).toList))
        ++ (nullableMark nullable).toList := by
    rw [← text]
    simp [format]
  rw [annotated, parseChars_annotated whole unbuilt,
    parseChars_instantiation whole (shape_instantiationChars qualified)
      (word?_instantiationChars wellNamed qualified)
      (instantiation?_chars _ qualified filled oneLine)]
  simp only [instantiate?, split, List.length_map, beq_self_eq_true, if_true, List.map_map,
    Function.comp_def]
  cases allSome (args.map fun arg => parseChars scope (format arg).toList) with
  | none => rfl
  | some reads =>
    simp only [Option.map_some, ofQualified_qualify undotted]
    cases nullable <;> rfl

/-- A type parameter is read as itself. -/
theorem parseChars_format_parameter (wellNamed : WellNamed scope) {owner : Owner} {index : Int}
    {name : String} (nullable : Bool)
    (means : word? scope name.toList = some (.parameter owner index name false)) :
    parseChars scope (format (.parameter owner index name nullable)).toList =
      some (.parameter owner index name nullable) := by
  have written := written_parameter wellNamed means
  have unbuilt : String.ofList name.toList ∉ builtinWords := by
    rw [String.ofList_toList]
    exact notBuiltin_of_parameter wellNamed means
  simp only [format, String.toList_append]
  rw [parseChars_annotated written unbuilt,
    parseChars_plain written (plain_parameter wellNamed means).2, means]
  cases nullable <;> rfl

theorem parseChars_format_array {element : Ty} {rank : Int} (nullable : Bool) (positive : 1 ≤ rank)
    (written : Written (format element).toList) :
    parseChars scope (format (.array element rank nullable)).toList =
      (parseChars scope (format element).toList).map (.array · rank nullable) := by
  have whole := written_rank written rank
  have unbuilt : String.ofList ((format element).toList ++ (rankText rank).toList) ∉
      builtinWords :=
    notBuiltin_of_mem (c := ']') (by simp [toList_rankText]) (by decide)
  have restored : ((rank - 1).toNat + 1 : Nat) = rank := by omega
  simp only [format, String.toList_append]
  rw [parseChars_annotated whole unbuilt]
  rw [toList_rankText] at whole ⊢
  rw [parseChars_array written whole, restored]
  cases parseChars scope (format element).toList <;> cases nullable <;> rfl

theorem parseChars_format_reference {element : Ty}
    (written : Written (format (.reference element)).toList) :
    parseChars scope (format (.reference element)).toList =
      (parseChars scope (format element).toList).map .reference := by
  simp only [format, String.toList_append] at written ⊢
  exact parseChars_reference written

/-- The names that are kept of a tuple: none, if no element has one. -/
def keptNames (n : Nat) (names : List (Option String)) : List (Option String) :=
  if (namesOf n names).any Option.isSome then namesOf n names else []

theorem map_fst_namedElements (elements : List Ty) (names : List (Option String)) :
    (namedElements elements names).map Prod.fst = elements :=
  List.map_fst_zip (by simp [namesOf])

theorem map_snd_namedElements (elements : List Ty) (names : List (Option String)) :
    (namedElements elements names).map Prod.snd = namesOf elements.length names :=
  List.map_snd_zip (by simp [namesOf])

/-- The elements of a tuple are read one by one, and so are their names. -/
theorem parseChars_format_tuple {elements : List Ty} {names : List (Option String)}
    (several : 2 ≤ elements.length)
    (written : ∀ element ∈ namedElements elements names, WrittenElement element) :
    parseChars scope (format (.tuple elements names)).toList =
      (allSome (elements.map fun element => parseChars scope (format element).toList)).map
        (.tuple · (keptNames elements.length names)) := by
  -- the space behind a comma belongs to the next piece, which is trimmed
  have split : splitArguments ([',', ' '].intercalate
      ((namedElements elements names).map elementChars)) =
      (namedElements elements names).map elementChars := by
    refine splitArguments_intercalate [' '] (by simp; decide) ?_ ?_ ?_ <;>
      rintro part member <;> obtain ⟨element, inElements, rfl⟩ := List.mem_map.mp member
    · exact (written element inElements).closed.passes
    · exact (written element inElements).trimmed
    · exact (written element inElements).filled
  have parts : ((namedElements elements names).map elementChars).map elementParts =
      (namedElements elements names).map fun element =>
        ((format element.1).toList, element.2.map String.toList) := by
    rw [List.map_map]
    exact List.map_congr_left fun element member =>
      elementParts_elementChars (written element member)
  have types : ((namedElements elements names).map elementChars).map
      (fun element => parseChars scope (elementParts element).1) =
      elements.map fun element => parseChars scope (format element).toList := by
    calc
      _ = (((namedElements elements names).map elementChars).map elementParts).map
            (fun part => parseChars scope part.1) := by simp only [List.map_map, Function.comp_def]
      _ = ((namedElements elements names).map Prod.fst).map
            (fun element => parseChars scope (format element).toList) := by
          rw [parts, List.map_map, List.map_map]; rfl
      _ = _ := by rw [map_fst_namedElements]
  -- names past the last element are not written, so only `namesOf` can come back
  have given : (((namedElements elements names).map elementChars).map elementParts).map
      (fun part => part.2.map String.ofList) = namesOf elements.length names := by
    rw [parts, ← map_snd_namedElements elements names]
    simp [Function.comp_def]
  have count : (((namedElements elements names).map elementChars).map elementParts).length =
      elements.length := by
    simp only [List.length_map]
    simpa using congrArg List.length (map_fst_namedElements elements names)
  rw [toList_format_tuple, parseChars_tuple (Written.tuple written), split, types]
  simp only [tuple?, count, given, Nat.not_lt.mpr several, if_false]
  rfl

theorem parseChars_format_nativeInteger (wellNamed : WellNamed scope) (unsigned : Bool) :
    parseChars scope (format (.nativeInteger unsigned)).toList = some (.nativeInteger unsigned) := by
  cases unsigned with
  | false => exact parseChars_builtin wellNamed "nint" (by decide) rfl
  | true => exact parseChars_builtin wellNamed "nuint" (by decide) rfl

theorem parseChars_format_dynamic (wellNamed : WellNamed scope) (nullable : Bool) :
    parseChars scope (format (.dynamic nullable)).toList = some (.dynamic nullable) := by
  have bare := parseChars_builtin wellNamed "dynamic" (by decide) rfl
  simp only [format, String.toList_append]
  cases nullable with
  | false => simpa [nullableMark] using bare
  | true =>
    -- the word is a builtin one, but not a keyword
    have written : Written "dynamic".toList := Written.of_qualified (by decide)
    simp only [toList_nullableMark, if_true]
    rw [parseChars_optional written, bare]
    rfl

end Forms

/-! ### Types that are read back -/

/-- The type is read from its own notation, up to what type identity and notation do not see. -/
def ReadsBack (scope : TypeScope) (type : Ty) : Prop :=
  ∃ read, parseChars scope (format type).toList = some read ∧ same type read = true ∧
    format read = format type

/-- Reading back a list, one type after the other. -/
theorem readsBack_all {scope : TypeScope} {types : List Ty}
    (each : ∀ type ∈ types, ReadsBack scope type) :
    ∃ reads, allSome (types.map fun type => parseChars scope (format type).toList) = some reads ∧
      sameAll types reads = true ∧ formatAll reads = formatAll types := by
  induction types with
  | nil => exact ⟨[], rfl, rfl, rfl⟩
  | cons type rest ih =>
    obtain ⟨here, others⟩ := List.forall_mem_cons.mp each
    obtain ⟨read, parsed, identical, formatted⟩ := here
    obtain ⟨reads, parsedAll, identicalAll, formattedAll⟩ := ih others
    refine ⟨read :: reads, ?_, ?_, ?_⟩
    · simp [allSome, parsed, parsedAll]
    · simp [sameAll, identical, identicalAll]
    · simp [formatAll, formatted, formattedAll]

theorem namesOf_keptNames (n : Nat) (names : List (Option String)) :
    namesOf n (keptNames n names) = namesOf n names := by
  unfold keptNames
  split
  next =>
    refine List.map_congr_left fun i inRange => ?_
    simp [elementName, namesOf, List.mem_range.mp inRange]
  -- no names are kept, so none may have been given
  next nameless =>
    refine List.map_congr_left fun i inRange => ?_
    have absent : ¬ (elementName names i).isSome := by
      intro present
      exact nameless (List.any_eq_true.mpr ⟨_, List.mem_map_of_mem inRange, present⟩)
    rw [Option.not_isSome_iff_eq_none] at absent
    simp [elementName] at absent ⊢
    exact absent.symm

theorem sameNames_keptNames (n : Nat) (names : List (Option String)) :
    sameNames n names (keptNames n names) = true :=
  sameNames_iff.mpr (namesOf_keptNames n names).symm

theorem format_tuple_congr {elements reads : List Ty} (names : List (Option String))
    (formatted : formatAll reads = formatAll elements) :
    format (.tuple reads (keptNames elements.length names)) = format (.tuple elements names) := by
  have length : (formatAll elements).length = elements.length := by simp [formatAll_eq_map]
  simp only [format, formatted, nameElements_eq_zipWith, length, namesOf_keptNames]

/-- No name without arguments in the type is a word with another meaning. -/
inductive NamesFree (scope : TypeScope) : Ty → Prop
  | named {ns name : String} {args : List Ty} {nullable : Bool}
      (free : args = [] → qualify ns name ∉ takenWords scope)
      (inner : ∀ arg ∈ args, NamesFree scope arg) : NamesFree scope (.named ns name args nullable)
  | parameter {owner : Owner} {index : Int} {name : String} {nullable : Bool} :
      NamesFree scope (.parameter owner index name nullable)
  | array {element : Ty} {rank : Int} {nullable : Bool} (inner : NamesFree scope element) :
      NamesFree scope (.array element rank nullable)
  | reference {element : Ty} (inner : NamesFree scope element) :
      NamesFree scope (.reference element)
  | tuple {elements : List Ty} {names : List (Option String)}
      (inner : ∀ element ∈ elements, NamesFree scope element) :
      NamesFree scope (.tuple elements names)
  | nativeInteger {unsigned : Bool} : NamesFree scope (.nativeInteger unsigned)
  | dynamic {nullable : Bool} : NamesFree scope (.dynamic nullable)

theorem WellFormed.namesFree {scope : TypeScope} {type : Ty} (wellFormed : WellFormed scope type) :
    NamesFree scope type := by
  induction wellFormed with
  | named _ _ free _ ih => exact .named free ih
  | parameter _ => exact .parameter
  | array _ _ ih => exact .array ih
  | reference _ ih => exact .reference ih
  | tuple _ _ _ ih => exact .tuple ih
  | nativeInteger _ => exact .nativeInteger
  | dynamic _ => exact .dynamic

/-! ### Main theorem -/

/-- What a type string can mean reads back, unless a name in it is taken. -/
theorem readsBack_of_readable {scope : TypeScope} (wellNamed : WellNamed scope) {type : Ty}
    (readable : Readable scope type) (free : NamesFree scope type) : ReadsBack scope type := by
  -- the hypothesis for the parts is `ReadsBack` itself; no form looks deeper than one level
  induction readable with
  | @named ns name args nullable qualified undotted inner ih =>
    cases free with
    | named free ofArgs =>
      by_cases none : args = []
      · subst none
        refine ⟨_, parseChars_format_name nullable qualified undotted (free rfl), ?_, rfl⟩
        simp [same, sameAll]
      · obtain ⟨reads, parsed, identical, formatted⟩ :=
          readsBack_all fun arg member => ih arg member (ofArgs arg member)
        refine ⟨.named ns name reads nullable, ?_, ?_, ?_⟩
        · rw [parseChars_format_instantiation wellNamed nullable none qualified undotted
            fun arg member => written_format wellNamed (inner arg member), parsed]
          rfl
        · simp [same, identical]
        · simp [format, formatted]
  | @parameter owner index name nullable means =>
    refine ⟨_, parseChars_format_parameter wellNamed nullable means, ?_, rfl⟩
    simp [same]
  | @array element rank nullable positive inner ih =>
    cases free with
    | array ofElement =>
      obtain ⟨read, parsed, identical, formatted⟩ := ih ofElement
      refine ⟨.array read rank nullable, ?_, ?_, ?_⟩
      · rw [parseChars_format_array nullable positive (written_format wellNamed inner), parsed]
        rfl
      · simp [same, identical]
      · simp [format, formatted]
  | @reference element inner ih =>
    cases free with
    | reference ofElement =>
      obtain ⟨read, parsed, identical, formatted⟩ := ih ofElement
      refine ⟨.reference read, ?_, ?_, ?_⟩
      · rw [parseChars_format_reference (written_format wellNamed (.reference inner)), parsed]
        rfl
      · simp [same, identical]
      · simp [format, formatted]
  | @tuple elements names several identifiers inner ih =>
    cases free with
    | tuple ofElements =>
      obtain ⟨reads, parsed, identical, formatted⟩ :=
        readsBack_all fun element member => ih element member (ofElements element member)
      have written := fun element member => written_format wellNamed (inner element member)
      refine ⟨.tuple reads (keptNames elements.length names), ?_, ?_, ?_⟩
      · rw [parseChars_format_tuple several fun element =>
          writtenElement_of_mem identifiers written, parsed]
        rfl
      · simp [same, identical, sameNames_keptNames]
      · exact format_tuple_congr names formatted
  | nativeInteger unsigned =>
    refine ⟨_, parseChars_format_nativeInteger wellNamed unsigned, ?_, rfl⟩
    simp [same]
  | dynamic nullable =>
    refine ⟨_, parseChars_format_dynamic wellNamed nullable, ?_, rfl⟩
    simp [same]

/-- Every type that can be written in a scope reads back. -/
theorem readsBack_of_wellFormed {scope : TypeScope} (wellNamed : WellNamed scope) {type : Ty}
    (wellFormed : WellFormed scope type) : ReadsBack scope type :=
  readsBack_of_readable wellNamed (wellFormed.readable wellNamed) wellFormed.namesFree

/-- Reading what was written of a well-formed type gives an identical type with the same text, at
every depth and width. -/
theorem parse?_format {scope : TypeScope} (wellNamed : WellNamed scope) {type : Ty}
    (wellFormed : WellFormed scope type) :
    ∃ read, parse? scope (format type) = some read ∧ same type read = true ∧
      format read = format type :=
  readsBack_of_wellFormed wellNamed wellFormed

/-- A scope with one parameter of the type and one of the method. -/
def pairScope : TypeScope where
  typeParameters := ["T"]
  methodTypeParameters := ["U"]

/-- A reference to an annotated array of tuples: `(A.List\x601[[T?]] items, !!3)[,]?&`. -/
def nestedType : Ty :=
  .reference (.array (.tuple
    [.named "A" "List" [.parameter .type 0 "T" true] false, .parameter .method 3 "!!3" false]
    [some "items"]) 2 true)

theorem parse?_format_nestedType :
    WellNamed pairScope ∧ WellFormed pairScope nestedType ∧
      ∃ read, parse? pairScope (format nestedType) = some read ∧ same nestedType read = true ∧
        format read = format nestedType := by
  have wellNamed : WellNamed pairScope := ⟨by decide, by decide, by decide⟩
  have item : WellFormed pairScope (.parameter .type 0 "T" true) :=
    @WellFormed.parameter pairScope .type 0 true (by decide)
  have list : WellFormed pairScope (.named "A" "List" [.parameter .type 0 "T" true] false) :=
    .named (by decide) (by decide) (by simp) (by simpa using item)
  have other : WellFormed pairScope (.parameter .method 3 "!!3" false) :=
    @WellFormed.parameter pairScope .method 3 false (by decide)
  -- only the first of the two elements has a name
  have names : ∀ i < 2, ∀ name, elementName [some "items"] i = some name →
      isIdentifier name.toList = true := by
    intro i bound name given
    obtain rfl | rfl : i = 0 ∨ i = 1 := by omega
    · obtain rfl : "items" = name := by simpa [elementName] using given
      decide
    · simp [elementName] at given
  have wellFormed : WellFormed pairScope nestedType :=
    .reference (.array (by decide) (.tuple (by decide) names (by simpa using ⟨list, other⟩)))
  exact ⟨wellNamed, wellFormed, parse?_format wellNamed wellFormed⟩

end MemberOrigin.Ty
