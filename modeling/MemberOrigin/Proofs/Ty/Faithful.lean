import MemberOrigin.Proofs.Ty.Image
import MemberOrigin.Proofs.Ty.RoundTrip

/-!
# Which accepted texts are written back faithfully

## Main result

`parse?_format_iff_namesFree`: what an accepted text means is read back from its notation exactly
if no name without arguments in it is a word with another meaning. Such a name can only come from
an instantiation whose number of arguments starts with a zero, as in `int\x600[[ ]]`.

## Proof strategy

One direction is `readsBack_of_readable` on the image of reading. For the other one, a taken word
is read as a parameter, as a type of the `System` namespace or not at all, and never as a type
without a namespace; an induction on the type carries this through the forms.
-/
namespace MemberOrigin.Ty

open Text

section

variable {scope : TypeScope}

/-! ### Accepted texts without a number zero -/

/-- No word with another meaning has a namespace. -/
theorem ns_of_taken (wellNamed : WellNamed scope) {ns name : String}
    (taken : qualify ns name ∈ takenWords scope) : ns = "" := by
  by_contra filled
  have separated : qualify ns name = ns ++ "." ++ name := by
    simp [qualify, String.isEmpty_iff, filled]
  have dot : '.' ∈ (qualify ns name).toList := by simp [separated]
  exact absurd (isWordChar_of_mem_takenWords wellNamed taken '.' dot) (by decide)

theorem namesFree_system (wellNamed : WellNamed scope) (name : String) :
    NamesFree scope (system name) := by
  refine .named (fun _ taken => ?_) (by simp)
  exact absurd (ns_of_taken wellNamed taken) (by decide)

theorem namesFree_ofQualified {word : List Char} {args : List Ty}
    (qualified : isQualifiedWord word = true)
    (free : args = [] → String.ofList word ∉ takenWords scope)
    (inner : ∀ arg ∈ args, NamesFree scope arg) : NamesFree scope (ofQualified word args) := by
  obtain ⟨ns, name, rfl, undotted⟩ := exists_qualify qualified
  rw [ofQualified_qualify undotted]
  rw [String.ofList_toList] at free
  exact .named free inner

theorem namesFree_of_meaning (wellNamed : WellNamed scope) {text : List Char} {type : Ty}
    (meaning : Meaning scope text type) : NamesFree scope type := by
  cases meaning with
  | position => exact .parameter
  | parameter => exact .parameter
  | keyword => exact namesFree_system wellNamed _
  | dynamic => exact .dynamic
  | nativeInteger => exact .nativeInteger
  | name free qualified => exact namesFree_ofQualified qualified (fun _ => free) (by simp)

theorem namesFree_of_annotate? {type annotated : Ty} (namesFree : NamesFree scope type)
    (carries : annotate? type = some annotated) : NamesFree scope annotated := by
  -- an annotation changes neither names nor arguments
  cases namesFree with
  | named free inner =>
    cases carries
    exact .named free inner
  | parameter =>
    cases carries
    exact .parameter
  | array inner =>
    cases carries
    exact .array inner
  | dynamic =>
    cases carries
    exact .dynamic
  | reference | tuple | nativeInteger => cases carries

/-- Without a number that starts with a zero, a name without arguments was read as a word. -/
theorem Reads.namesFree (wellNamed : WellNamed scope) {text : List Char} {type : Ty}
    (reads : Reads scope text type) (nonzero : ¬ ['\x60', '0'] <:+: text) :
    NamesFree scope type := by
  induction reads with
  | reference inside _ ih => exact .reference (ih fun zero => nonzero (zero.trans inside))
  | nullableValue =>
    -- the outer name has an argument, and the inner one is a name of the runtime
    exact .named (by simp) (by simpa using namesFree_system wellNamed _)
  | annotated inside _ carries ih =>
    exact namesFree_of_annotate? (ih fun zero => nonzero (zero.trans inside)) carries
  | array _ inside _ ih => exact .array (ih fun zero => nonzero (zero.trans inside))
  | tuple _ _ _ inside _ ih =>
    exact .tuple fun element member =>
      ih element member fun zero => nonzero (zero.trans (inside element member))
  | word means => exact namesFree_of_meaning wellNamed (meaning_of_word? means)
  | instantiation qualified none _ inside _ ih =>
    -- a name that lost all its arguments would have been written with a zero
    exact namesFree_ofQualified qualified (fun empty => absurd (none empty) nonzero)
      fun arg member => ih arg member fun zero => nonzero (zero.trans (inside arg member))

/-! ### Names that are taken are not read back -/

/-- A taken word means no named type outside of the `System` namespace. -/
theorem ns_of_word? {word ns name : String} {args : List Ty} {nullable : Bool}
    (taken : word ∈ takenWords scope)
    (means : word? scope word.toList = some (.named ns name args nullable)) : ns = "System" := by
  generalize equal : Ty.named ns name args nullable = type at means
  cases meaning_of_word? means with
  | keyword =>
    cases equal
    rfl
  | name free => exact absurd taken (by simpa using free)
  | position | parameter | dynamic | nativeInteger => cases equal

theorem ns_of_format {ns name ns' name' : String} {args : List Ty} {nullable nullable' : Bool}
    (qualified : isQualifiedWord (qualify ns name).toList = true)
    (taken : qualify ns name ∈ takenWords scope)
    (parsed : parseChars scope (format (.named ns name [] nullable)).toList =
      some (.named ns' name' args nullable')) : ns' = "System" := by
  have plain := isQualifiedChar_of_isQualifiedWord qualified
  have written := Written.of_qualified qualified
  have asWord : parseChars scope (qualify ns name).toList =
      word? scope (qualify ns name).toList :=
    parseChars_plain written fun c member => Or.inr (plain c member)
  rw [toList_format_name, toList_nullableMark] at parsed
  cases nullable with
  | false =>
    simp only [Bool.false_eq_true, if_false, List.append_nil, asWord] at parsed
    exact ns_of_word? taken parsed
  | true =>
    simp only [if_true, parseChars_optional written, asWord] at parsed
    split at parsed
    · cases parsed
      rfl
    · obtain ⟨read, means, carries⟩ := Option.bind_eq_some_iff.mp parsed
      -- an annotation does not change the name
      cases read with
      | named =>
        cases carries
        exact ns_of_word? taken means
      | parameter | array | reference | tuple | nativeInteger | dynamic => cases carries

theorem exists_of_sameAll {types reads : List Ty}
    (parsed : allSome (types.map fun type => parseChars scope (format type).toList) = some reads)
    (identical : sameAll types reads = true) : ∀ type ∈ types,
      ∃ read, parseChars scope (format type).toList = some read ∧ same type read = true := by
  rw [allSome_eq_some_iff] at parsed
  induction types generalizing reads with
  | nil => simp
  | cons type rest ih =>
    cases reads with
    | nil => cases parsed
    | cons read others =>
      obtain ⟨here, behind⟩ := List.cons.inj parsed
      simp only [sameAll, Bool.and_eq_true] at identical
      exact List.forall_mem_cons.mpr ⟨⟨read, here, identical.1⟩, ih behind identical.2⟩

/-- If a type is read back, then so is everything in it, and no name in it is taken. -/
theorem namesFree_of_reads (wellNamed : WellNamed scope) {type : Ty}
    (readable : Readable scope type) {read : Ty}
    (parsed : parseChars scope (format type).toList = some read)
    (identical : same type read = true) : NamesFree scope type := by
  -- reading a form again reads its parts again, so identity passes down to them
  induction readable generalizing read with
  | @named ns name args nullable qualified undotted inner ih =>
    by_cases none : args = []
    · subst none
      refine .named (fun _ taken => ?_) (by simp)
      obtain rfl := ns_of_taken wellNamed taken
      cases read with
      | named ns' name' args' nullable' =>
        have system := ns_of_format qualified taken parsed
        simp [same, system] at identical
      | parameter | array | reference | tuple | nativeInteger | dynamic =>
        simp [same] at identical
    · rw [parseChars_format_instantiation wellNamed nullable none qualified undotted
        fun arg member => written_format wellNamed (inner arg member)] at parsed
      obtain ⟨reads, ofArgs, rfl⟩ := Option.map_eq_some_iff.mp parsed
      simp only [same, Bool.and_eq_true] at identical
      refine .named (fun empty => absurd empty none) fun arg member => ?_
      obtain ⟨read, ofArg, same⟩ := exists_of_sameAll ofArgs identical.2 arg member
      exact ih arg member ofArg same
  | parameter => exact .parameter
  | @array element rank nullable positive inner ih =>
    rw [parseChars_format_array nullable positive (written_format wellNamed inner)] at parsed
    obtain ⟨read, ofElement, rfl⟩ := Option.map_eq_some_iff.mp parsed
    simp only [same, Bool.and_eq_true] at identical
    exact .array (ih ofElement identical.2)
  | @reference element inner ih =>
    rw [parseChars_format_reference (written_format wellNamed (.reference inner))] at parsed
    obtain ⟨read, ofElement, rfl⟩ := Option.map_eq_some_iff.mp parsed
    simp only [same] at identical
    exact .reference (ih ofElement identical)
  | @tuple elements names several identifiers inner ih =>
    have written := fun element member => written_format wellNamed (inner element member)
    rw [parseChars_format_tuple several fun element =>
      writtenElement_of_mem identifiers written] at parsed
    obtain ⟨reads, ofElements, rfl⟩ := Option.map_eq_some_iff.mp parsed
    simp only [same, Bool.and_eq_true] at identical
    refine .tuple fun element member => ?_
    obtain ⟨read, ofElement, same⟩ := exists_of_sameAll ofElements identical.1 element member
    exact ih element member ofElement same
  | nativeInteger => exact .nativeInteger
  | dynamic => exact .dynamic

end

/-! ### Main theorem -/

/-- What an accepted text means is read back exactly if no name in it is taken. A taken name only
comes from an instantiation whose number of arguments starts with a zero. -/
theorem parse?_format_iff_namesFree {scope : TypeScope} (wellNamed : WellNamed scope)
    {text : String} {type : Ty} (parsed : parse? scope text = some type) :
    ((∃ read, parse? scope (format type) = some read ∧ same type read = true) ↔
      NamesFree scope type) ∧
      (NamesFree scope type ∨ ['\x60', '0'] <:+: text.toList) := by
  have reads := reads_of_parseChars parsed
  have readable := reads.readable wellNamed
  refine ⟨⟨?_, fun free => ?_⟩, ?_⟩
  · rintro ⟨read, again, identical⟩
    exact namesFree_of_reads wellNamed readable again identical
  · obtain ⟨read, again, identical, -⟩ := readsBack_of_readable wellNamed readable free
    exact ⟨read, again, identical⟩
  · -- only an instantiation over no arguments can give a taken name to a type
    by_cases zero : ['\x60', '0'] <:+: text.toList
    · exact Or.inr zero
    · exact Or.inl (reads.namesFree wellNamed zero)

/-- The text ` A.List\x601[[ T? ]]`, with blanks where the notation has none. -/
theorem parse?_format_iff_namesFree_list :
    WellNamed pairScope ∧ ∃ type, parse? pairScope " A.List\x601[[ T? ]]" = some type ∧
      ((∃ read, parse? pairScope (format type) = some read ∧ same type read = true) ↔
        NamesFree pairScope type) ∧
        (NamesFree pairScope type ∨
          ['\x60', '0'] <:+: " A.List\x601[[ T? ]]".toList) := by
  have wellNamed : WellNamed pairScope := ⟨by decide, by decide, by decide⟩
  -- the parser is opened by its equation, from the inner text to the outer one
  have item : parseChars pairScope ['T'] = some (.parameter .type 0 "T" false) := by
    rw [parseChars_eq]
    rfl
  have annotated : parseChars pairScope ['T', '?'] = some (.parameter .type 0 "T" true) := by
    rw [parseChars_eq]
    change (parseChars pairScope ['T']).bind annotate? = _
    rw [item]
    rfl
  have parsed : parse? pairScope " A.List\x601[[ T? ]]" =
      some (.named "A" "List" [.parameter .type 0 "T" true] false) := by
    rw [parse?, parseChars_eq]
    change instantiate? ⟨_, 1, [['T', '?']]⟩ (allSome [parseChars pairScope ['T', '?']]) = _
    rw [annotated]
    rfl
  exact ⟨wellNamed, _, parsed, parse?_format_iff_namesFree wellNamed parsed⟩

/-- A blank list of no arguments is accepted; the name in front of it is written as a keyword, which
is read as another type. -/
theorem not_parse?_format_emptyInstantiation :
    WellNamed {} ∧ ∃ type, parse? {} "int\x600[[ ]]" = some type ∧
      ¬ ∃ read, parse? {} (format type) = some read ∧ same type read = true := by
  have parsed : parse? {} "int\x600[[ ]]" = some (.named "" "int" [] false) := by
    rw [parse?, parseChars_eq]
    rfl
  have again : parse? {} (format (.named "" "int" [] false)) = some (system "Int32") := by
    rw [parse?, parseChars_eq]
    rfl
  refine ⟨⟨by decide, by decide, by decide⟩, _, parsed, ?_⟩
  rintro ⟨read, found, identical⟩
  cases again.symm.trans found
  exact absurd identical (by decide)

end MemberOrigin.Ty
