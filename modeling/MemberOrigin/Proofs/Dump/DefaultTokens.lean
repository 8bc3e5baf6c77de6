import MemberOrigin.Proofs.Dump.Reports

/-!
# Tokens of methods without a written one

## Main result

`load_duplicateToken_iff`: if no token is written twice, a method is refused for its token exactly if
the token is written for one method and is the default of another one, at its position. Both can be
read, and the later one is refused, whether its token is the written one or not.

## Proof strategy

A method that cannot be read is never reported as a duplicate, since none of the readers uses this
code. Of two methods that share a token, one has it by default and one does not: written tokens are
distinct, and so are the defaults of two positions.
-/
namespace MemberOrigin

namespace Reading

/-! ### Codes of problems -/

/-- A reading that refuses with certain codes only. -/
def RefusesWith {α : Type} (codes : List DiagnosticCode) (reading : Reading α) : Prop :=
  ∀ problem, reading = .error problem → problem.code ∈ codes

namespace RefusesWith

variable {α β : Type} {codes : List DiagnosticCode}

theorem ok (value : α) : RefusesWith codes (.ok value : Reading α) :=
  fun _ refused => by cases refused

theorem bind {reading : Reading α} {next : α → Reading β} (first : RefusesWith codes reading)
    (goesOn : ∀ value, RefusesWith codes (next value)) : RefusesWith codes (reading >>= next) := by
  intro problem refused
  cases reading with
  | ok value => exact goesOn value problem refused
  | error other =>
    cases refused
    exact first problem rfl

theorem map {reading : Reading α} (f : α → β) (first : RefusesWith codes reading) :
    RefusesWith codes (reading.map f) := by
  intro problem refused
  cases reading with
  | ok value => cases refused
  | error other =>
    cases refused
    exact first problem rfl

theorem each {read : Nat → α → Reading β}
    (items : ∀ position item, RefusesWith codes (read position item)) (start : Nat)
    (list : List α) : RefusesWith codes (Reading.each read start list) := by
  induction list generalizing start with
  | nil => exact ok []
  | cons item rest ih =>
    exact (items start item).bind fun first => (ih (start + 1)).bind fun others => ok _

variable {code : DiagnosticCode} (known : code ∈ codes) (path : DocPath) (node : Document)

section Entries

include known

theorem refuse (cause : Cause) : RefusesWith codes (refuse code path cause : Reading α) := by
  rintro _ ⟨⟩
  exact known

theorem object (what : String) : RefusesWith codes (object node path code what) := by
  unfold Reading.object
  split
  · exact ok node
  · exact refuse known path _

theorem accessibility (default : Accessibility) :
    RefusesWith codes (accessibility node path code default) := by
  unfold Reading.accessibility
  split
  · exact ok _
  · exact ok _
  · dsimp only
    split
    · exact ok _
    · exact refuse known _ _

variable (key : String)

theorem string : RefusesWith codes (string node key path code) := by
  unfold Reading.string
  split
  · split
    · exact refuse known _ _
    · exact ok _
  · exact refuse known _ _

theorem string? : RefusesWith codes (string? node key path code) := by
  unfold Reading.string?
  split
  · exact ok none
  · exact ok none
  · exact (string known path node key).map some

theorem flag : RefusesWith codes (flag node key path code) := by
  unfold Reading.flag
  split
  · exact ok false
  · exact ok false
  · exact ok _
  · exact refuse known _ _

theorem integer? : RefusesWith codes (integer? node key path code) := by
  unfold Reading.integer?
  split
  · exact ok none
  · exact ok none
  · exact ok _
  · exact refuse known _ _

theorem list : RefusesWith codes (list node key path code) := by
  unfold Reading.list
  split
  · exact ok []
  · exact ok []
  · exact ok _
  · exact refuse known _ _

theorem strings : RefusesWith codes (strings node key path code) := by
  refine (list known path node key).bind fun items => each (fun position item => ?_) 0 items
  split
  · exact ok _
  · exact refuse known _ _

end Entries

theorem type (known : .invalidType ∈ codes) (text : String) (typeParameters : List String) :
    RefusesWith codes (type text path typeParameters) := by
  unfold Reading.type
  split
  · exact ok _
  · exact refuse known path _

end RefusesWith

end Reading

namespace Dump

open Reading

section Declarations

variable {codes : List DiagnosticCode} {code : DiagnosticCode} (known : code ∈ codes)
  (types : .invalidType ∈ codes) (node : Document) (path : DocPath) (scope : DumpScope)

include known types

theorem readAttributes_refusesWith (key : String) (typeParameters : List String) :
    RefusesWith codes (readAttributes node key path code typeParameters) :=
  (RefusesWith.strings known path node key).bind fun texts =>
    .each (fun _ text => .type _ types text typeParameters) 0 texts

theorem readMember_refusesWith (token : Int) (access : Accessibility) :
    RefusesWith codes (readMember node path code scope token access) := by
  refine (RefusesWith.string known path node "name").bind fun name => ?_
  refine (RefusesWith.integer? known path node "token").bind fun token => ?_
  refine (RefusesWith.flag known path node _).bind fun isStatic => ?_
  refine (readAttributes_refusesWith known types node path _ _).bind fun attributes => ?_
  exact (RefusesWith.flag known path node _).bind fun isExplicit => .ok _

theorem readParameters_refusesWith :
    RefusesWith codes (readParameters node path code scope) := by
  refine (RefusesWith.list known path node _).bind fun items => .each (fun position item => ?_) 0 _
  unfold readParameter
  split
  · exact (RefusesWith.type _ types _ _).bind fun type => .ok _
  · refine (RefusesWith.string known _ _ _).bind fun name => RefusesWith.bind ?_ fun type => .ok _
    exact (RefusesWith.string known _ _ _).bind fun text => .type _ types _ _
  · exact .refuse known _ _

end Declarations

/-- A method that cannot be read is not reported as a duplicate. -/
theorem readMethod_refusesWith (scope : DumpScope) (position : Nat) (item : Document) :
    RefusesWith [.invalidMethod, .invalidType, .invalidBody] (readMethod scope position item) := by
  have known : DiagnosticCode.invalidMethod ∈
      [DiagnosticCode.invalidMethod, .invalidType, .invalidBody] := by decide
  have types : DiagnosticCode.invalidType ∈
      [DiagnosticCode.invalidMethod, .invalidType, .invalidBody] := by decide
  have flags (node : Document) (path : DocPath) (key : String) :=
    RefusesWith.flag known path node key
  refine (RefusesWith.object known _ _ _).bind fun node => ?_
  refine (readMember_refusesWith known types node _ _ _ _).bind fun member => ?_
  refine (RefusesWith.string? known _ node _).bind fun returnText => ?_
  -- the form of the body has a code of its own
  refine RefusesWith.bind ?_ fun hasBody => ?_
  · unfold readHasBody
    split
    · exact .ok _
    · exact .ok _
    · exact .ok _
    · exact .refuse (by decide) _ _
  refine (RefusesWith.accessibility known _ node _).bind fun accessibility => ?_
  refine (readParameters_refusesWith known types node _ _).bind fun parameters => ?_
  refine (RefusesWith.type _ types _ _).bind fun returnType => ?_
  refine (readAttributes_refusesWith known types node _ _ _).bind fun returnAttributes => ?_
  refine (flags node _ _).bind fun isVirtual => (flags node _ _).bind fun isOverride => ?_
  refine (flags node _ _).bind fun isSealed => (flags node _ _).bind fun isAbstract => ?_
  exact (flags node _ _).bind fun isOperator => .ok _

/-! ### Tokens -/

/-- The token that is written for an entry. -/
def writtenToken? (item : Document) : Option Int :=
  match item.get? "token" with
  | some (.number (.integer token)) => some token
  | _ => none

/-- A method has the token that is written for it, or the default of its position. -/
theorem readMethod_token {scope : DumpScope} {position : Nat} {item : Document} {method : Method}
    (read : readMethod scope position item = .ok method) :
    method.token = (writtenToken? item).getD (firstMethodToken + position) := by
  simp only [readMethod, bind_eq_ok_iff, pure_eq_ok_iff, object_eq_ok_iff] at read
  obtain ⟨_, ⟨_, rfl⟩, member, ofMember, returnText, _, hasBody, _, accessibility, _, read⟩ := read
  obtain ⟨parameters, _, returnType, _, attributes, _, isVirtual, _, isOverride, _, read⟩ := read
  obtain ⟨isSealed, _, isAbstract, _, isOperator, _, rfl⟩ := read
  -- only what all members have says anything of the token
  simp only [readMember, bind_eq_ok_iff, pure_eq_ok_iff] at ofMember
  obtain ⟨name, _, given, onToken, isStatic, _, attributes, _, isExplicit, _, rfl⟩ := ofMember
  have same : given = writtenToken? item := by
    unfold integer? at onToken
    unfold writtenToken?
    split at onToken <;> simp_all
  rw [same]

/-- One of two methods has a written token, and the other one has it by default. -/
def MixedTokens (item other : Document) (position front : Nat) : Prop :=
  (writtenToken? item = none ∧ writtenToken? other = some (firstMethodToken + position)) ∨
    (writtenToken? item = some (firstMethodToken + front) ∧ writtenToken? other = none)

section Entries

variable {items : List Document} (distinct : (items.filterMap writtenToken?).Nodup)
  {position front : Nat} {item other : Document}

include distinct

/-- No token is written for two entries. -/
theorem writtenToken?_ne (token : Int) (before : front < position)
    (found : items[position]? = some item) (foundFront : items[front]? = some other)
    (written : writtenToken? item = some token) : writtenToken? other ≠ some token := by
  intro writtenFront
  have apart := List.pairwise_iff_getElem.mp (List.pairwise_filterMap.mp distinct)
  obtain ⟨inside, rfl⟩ := List.getElem?_eq_some_iff.mp found
  obtain ⟨insideFront, rfl⟩ := List.getElem?_eq_some_iff.mp foundFront
  exact apart front position insideFront inside before token writtenFront token written rfl

theorem sameToken_iff (before : front < position) (found : items[position]? = some item)
    (foundFront : items[front]? = some other) :
    (writtenToken? item).getD (firstMethodToken + position) =
        (writtenToken? other).getD (firstMethodToken + front) ↔
      MixedTokens item other position front := by
  have apart (token : Int) := writtenToken?_ne distinct token before found foundFront
  unfold MixedTokens
  cases written : writtenToken? item with
  | none =>
    cases writtenFront : writtenToken? other with
    | none =>
      -- the defaults of two positions differ
      simp only [Option.getD_none, reduceCtorEq, and_false, false_and, or_self, iff_false]
      omega
    | some token => simp [eq_comm]
  | some token =>
    cases writtenFront : writtenToken? other with
    | none => simp
    | some token' =>
      have differ : token ≠ token' := by
        rintro rfl
        exact apart _ written writtenFront
      simp [differ]

/-- A method clashes with an earlier one exactly if the token that is written for one of them is the
default of the other one. -/
theorem methodSection_repeats_iff {scope : DumpScope} {method : Method}
    (found : items[position]? = some item) (read : readMethod scope position item = .ok method) :
    (methodSection scope).Repeats items position method ↔
      ∃ front other, front < position ∧ items[front]? = some other ∧
        (∃ earlier, readMethod scope front other = .ok earlier) ∧
        MixedTokens item other position front := by
  constructor
  · rintro ⟨front, other, earlier, before, foundFront, readFront, clashes⟩
    have same : method.token = earlier.token := beq_iff_eq.mp clashes
    rw [readMethod_token read, readMethod_token readFront] at same
    exact ⟨front, other, before, foundFront, ⟨earlier, readFront⟩,
      (sameToken_iff distinct before found foundFront).mp same⟩
  · rintro ⟨front, other, before, foundFront, ⟨earlier, readFront⟩, mixed⟩
    have same := (sameToken_iff distinct before found foundFront).mpr mixed
    rw [← readMethod_token read, ← readMethod_token readFront] at same
    exact ⟨front, other, earlier, before, foundFront, readFront, beq_iff_eq.mpr same⟩

end Entries

/-! ### Problems of tokens -/

/-- The place of the token of the method at a position. -/
def tokenPath (position : Nat) : DocPath :=
  ((DocPath.root.key "methods").index position).key "token"

/-- The method at a position is refused for its token. -/
def RefusesToken (problem : Problem) (position : Nat) : Prop :=
  problem.code = .duplicateDeclaration ∧ problem.path = tokenPath position

/-- An entry for a method that can be read. -/
def MethodAt (header : RecordHeader) (document : Document) (position : Nat) (item : Document) :
    Prop :=
  (sectionItems document "methods").1[position]? = some item ∧
    ∃ method, readMethod (headerScope header) position item = .ok method

section Problems

variable {header : RecordHeader} {document : Document} {position : Nat} {problem : Problem}

theorem RefusesToken.ofEntry (refuses : RefusesToken problem position) :
    problem.OfEntry "methods" position := by
  rw [Problem.OfEntry, refuses.2]
  exact List.prefix_append _ _

/-- Nothing of a body is reported at a token. -/
theorem RefusesToken.mem_methods {report : Report} (of : report.Of header document)
    (refuses : RefusesToken problem position) (member : problem ∈ report.all) :
    problem ∈ report.methods.problems := by
  rcases (of.mem_all_iff_methods refuses.ofEntry).mp member with inMethods | inBodies
  · exact inMethods
  · obtain ⟨place, _, _, _, _, _, badBody⟩ := (of.bodies problem).mp inBodies
    have below := inside_of_readBody badBody
    rw [refuses.2] at below
    have same : (bodyPath place).steps = (tokenPath position).steps := below.eq_of_length rfl
    -- the place of a body ends in another key
    have last := congrArg List.getLast? same
    simp [bodyPath, tokenPath, DocPath.key] at last

/-- The only fault that a method has at its token is that it repeats the token of another one. -/
theorem refusesToken_fault_iff {scope : DumpScope} {items : List Document} :
    (∃ problem, RefusesToken problem position ∧
        (methodSection scope).Fault items position problem) ↔
      ∃ item method, items[position]? = some item ∧ readMethod scope position item = .ok method ∧
        (methodSection scope).Repeats items position method := by
  constructor
  · rintro ⟨problem, refuses, fault⟩
    cases fault with
    | unreadable found refused =>
      -- a reader refuses a method with other codes than the one of a repeated token
      have code := readMethod_refusesWith _ _ _ _ refused
      rw [refuses.1] at code
      exact absurd code (by decide)
    | repeated found read again => exact ⟨_, _, found, read, again⟩
  · rintro ⟨item, method, found, read, again⟩
    exact ⟨_, ⟨rfl, rfl⟩, .repeated found read again⟩

end Problems

/-- If no token is written twice, a method is refused for its token exactly if one of it and an earlier
method has the written token that the other one has by default. -/
theorem load_duplicateToken_iff {document : Document} {header : RecordHeader}
    (valid : readHeader (document.get? "record") = .ok header)
    (distinct : ((sectionItems document "methods").1.filterMap writtenToken?).Nodup)
    (fileName : String) (position : Nat) :
    (∃ problems, load fileName document = .error problems ∧
        ∃ problem ∈ problems, RefusesToken problem position) ↔
      ∃ item front other, front < position ∧ MethodAt header document position item ∧
        MethodAt header document front other ∧ MixedTokens item other position front := by
  have of := of_reportOf header document
  -- what is reported at a token of a method is a fault in the section of methods
  have fault (problem : Problem) (refuses : RefusesToken problem position) :=
    of.methods.mem_iff_fault (reportsAt_methods _) refuses.ofEntry
  constructor
  · rintro ⟨problems, refused, problem, member, refuses⟩
    rw [((load_eq_error_iff valid fileName).mp refused).2] at member
    have isFault := (fault problem refuses).mp (refuses.mem_methods of member)
    obtain ⟨item, method, found, read, again⟩ :=
      refusesToken_fault_iff.mp ⟨problem, refuses, isFault⟩
    obtain ⟨front, other, before, foundFront, readFront, mixed⟩ :=
      (methodSection_repeats_iff distinct found read).mp again
    exact ⟨item, front, other, before, ⟨found, method, read⟩, ⟨foundFront, readFront⟩, mixed⟩
  · rintro ⟨item, front, other, before, ⟨found, method, read⟩, ⟨foundFront, readFront⟩, mixed⟩
    have again := (methodSection_repeats_iff distinct found read).mpr
      ⟨front, other, before, foundFront, readFront, mixed⟩
    obtain ⟨problem, refuses, isFault⟩ :=
      refusesToken_fault_iff.mpr ⟨item, method, found, read, again⟩
    have member : problem ∈ (reportOf header document).all :=
      (of.mem_all_iff_methods refuses.ofEntry).mpr (.inl ((fault problem refuses).mpr isFault))
    exact ⟨_, (load_eq_error_iff valid fileName).mpr ⟨List.ne_nil_of_mem member, rfl⟩,
      problem, member, refuses⟩

/-- The first of two methods has the token that the second one gets by default. -/
def mixedDocument : Document :=
  .object [
    ("record", .object [("name", .string "Point")]),
    ("methods", .list [
      .object [("name", .string "First"), ("token", .number (.integer (firstMethodToken + 1)))],
      .object [("name", .string "Second")]])]

/-- Only one token is written, but the second method is refused for its token. -/
theorem load_mixedDocument :
    readHeader (mixedDocument.get? "record") = .ok pointHeader ∧
      ((sectionItems mixedDocument "methods").1.filterMap writtenToken?).Nodup ∧
      load "dump.yaml" mixedDocument =
        .error [duplicate (tokenPath 1) "token 0x6000002"] := by
  refine ⟨rfl, ?_, ?_⟩
  · decide
  · decide +kernel

theorem load_duplicateToken_iff_mixedDocument :
    readHeader (mixedDocument.get? "record") = .ok pointHeader ∧
      ((sectionItems mixedDocument "methods").1.filterMap writtenToken?).Nodup ∧
      ∃ item front other, front < 1 ∧ MethodAt pointHeader mixedDocument 1 item ∧
        MethodAt pointHeader mixedDocument front other ∧ MixedTokens item other 1 front := by
  have valid : readHeader (mixedDocument.get? "record") = .ok pointHeader := rfl
  have distinct : ((sectionItems mixedDocument "methods").1.filterMap writtenToken?).Nodup := by
    decide
  have refused : load "dump.yaml" mixedDocument =
      .error [duplicate (tokenPath 1) "token 0x6000002"] := by
    decide +kernel
  exact ⟨valid, distinct, (load_duplicateToken_iff valid distinct "dump.yaml" 1).mp
    ⟨_, refused, _, List.mem_cons_self, rfl, rfl⟩⟩

end Dump

end MemberOrigin
