import MemberOrigin.Dump.Bodies
import MemberOrigin.Proofs.Dump.Members
import MemberOrigin.Proofs.Dump.PathText

/-!
# Readings of a node at two places

## Main results

`readMethod_agrees`, `readProperty_agrees`, `readBody_agrees`, and the like: a node that is read at two
places gives the same value at both, or problems that correspond to each other. Two scopes may be
used, as long as they give the same meaning to every name.

## Proof strategy

A reader hands its path on to the readers of the nodes below, and looks at it only to report a
problem. What a `Relocation` knows of paths is closed under these steps, so each reader needs one
lemma, which follows the reader. The lemma is used for one run, to find out where problems are, and
for two runs, to find out what does not depend on places.
-/
namespace MemberOrigin.Dump

open Reading

/-- Places of nodes in two documents, and the problems that correspond to each other. -/
structure Relocation where
  /-- The node stands at both places. -/
  At : DocPath → DocPath → Document → Prop
  Pairs : Problem → Problem → Prop
  here {p q : DocPath} {node : Document} (placed : At p q node) (code : DiagnosticCode)
    (cause : Cause) : Pairs ⟨code, p, cause⟩ ⟨code, q, cause⟩
  below {p q : DocPath} {node : Document} (placed : At p q node) {key : String}
    (plain : PlainKey key) (code : DiagnosticCode) (cause : Cause) :
    Pairs ⟨code, p.key key, cause⟩ ⟨code, q.key key, cause⟩
  key {p q : DocPath} {node child : Document} (placed : At p q node) {key : String}
    (plain : PlainKey key) (found : node.get? key = some child) : At (p.key key) (q.key key) child
  item {p q : DocPath} {items : List Document} (placed : At p q (.list items)) {position : Nat}
    {item : Document} (found : items[position]? = some item) :
    At (p.index position) (q.index position) item

/-- Two scopes in which every name means the same. -/
structure SameScope (scope other : DumpScope) : Prop where
  selfType : scope.selfType = other.selfType
  typeParameters : scope.typeParameters = other.typeParameters
  fields : ∀ name, scope.field? name = other.field? name
  methods : ∀ name, (scope.methods.filter fun method => method.name == name).Perm
    (other.methods.filter fun method => method.name == name)

theorem SameScope.refl (scope : DumpScope) : SameScope scope scope :=
  ⟨rfl, rfl, fun _ => rfl, fun _ => .refl _⟩

/-- An entry with a token of its own. -/
def GivesToken (node : Document) : Prop :=
  ∃ value, node.get? "token" = some value ∧ value ≠ .null

namespace Relocation

/-- Whatever is refused at these places corresponds. -/
def Points (R : Relocation) (p q : DocPath) : Prop :=
  ∀ code cause, R.Pairs ⟨code, p, cause⟩ ⟨code, q, cause⟩

/-- Both readings give the same value, or refuse with problems that correspond. -/
inductive Agree (R : Relocation) {α : Type} : Reading α → Reading α → Prop
  | ok (value : α) : R.Agree (.ok value) (.ok value)
  | error {problem other : Problem} (pairs : R.Pairs problem other) :
      R.Agree (.error problem) (.error other)

variable {R : Relocation} {p q : DocPath} {node : Document} {code : DiagnosticCode}

section Steps

variable {α β : Type}

theorem Agree.bind {reading other : Reading α} {next otherNext : α → Reading β}
    (first : R.Agree reading other)
    (goesOn : ∀ value, reading = .ok value → R.Agree (next value) (otherNext value)) :
    R.Agree (reading >>= next) (other >>= otherNext) := by
  cases first with
  | ok value => exact goesOn value rfl
  | error pairs => exact .error pairs

theorem Agree.map {reading other : Reading α} (f : α → β) (agree : R.Agree reading other) :
    R.Agree (reading.map f) (other.map f) := by
  cases agree with
  | ok value => exact .ok (f value)
  | error pairs => exact .error pairs

theorem Agree.eachFrom {read otherRead : Nat → α → Reading β} {items : List α} {start : Nat}
    (agree : ∀ position item, items[position]? = some item →
      R.Agree (read (start + position) item) (otherRead (start + position) item)) :
    R.Agree (each read start items) (each otherRead start items) := by
  induction items generalizing start with
  | nil => exact .ok []
  | cons item rest ih =>
    refine .bind (agree 0 item rfl) fun first _ => .bind (ih ?_) fun others _ => .ok _
    intro position other found
    have behind := agree (position + 1) other found
    rwa [← Nat.add_assoc, Nat.add_right_comm] at behind

theorem Agree.each {read otherRead : Nat → α → Reading β} {items : List α}
    (agree : ∀ position item, items[position]? = some item →
      R.Agree (read position item) (otherRead position item)) :
    R.Agree (each read 0 items) (each otherRead 0 items) := by
  apply Agree.eachFrom
  intro position item found
  rw [Nat.zero_add]
  exact agree position item found

theorem refuse_agrees (points : R.Points p q) (cause : Cause) :
    R.Agree (refuse code p cause : Reading α) (refuse code q cause) :=
  .error (points code cause)

end Steps

/-! ### Entries of objects -/

section Entries

variable (placed : R.At p q node)

include placed

theorem object_agrees (what : String) :
    R.Agree (object node p code what) (object node q code what) := by
  unfold object
  split
  · exact .ok node
  · exact refuse_agrees (R.here placed) _

theorem accessibility_agrees (default : Accessibility) :
    R.Agree (accessibility node p code default) (accessibility node q code default) := by
  unfold accessibility
  split
  · exact .ok _
  · exact .ok _
  · dsimp only
    split
    · exact .ok _
    · exact refuse_agrees (R.below placed (by decide)) _

variable {key : String} (plain : PlainKey key)

include plain

theorem string_agrees : R.Agree (string node key p code) (string node key q code) := by
  unfold string
  split
  · split
    · exact refuse_agrees (R.below placed plain) _
    · exact .ok _
  · exact refuse_agrees (R.below placed plain) _

theorem string?_agrees : R.Agree (string? node key p code) (string? node key q code) := by
  unfold string?
  split
  · exact .ok none
  · exact .ok none
  · exact (string_agrees placed plain).map some

theorem flag_agrees : R.Agree (flag node key p code) (flag node key q code) := by
  unfold flag
  split
  · exact .ok false
  · exact .ok false
  · exact .ok _
  · exact refuse_agrees (R.below placed plain) _

theorem integer?_agrees : R.Agree (integer? node key p code) (integer? node key q code) := by
  unfold integer?
  split
  · exact .ok none
  · exact .ok none
  · exact .ok _
  · exact refuse_agrees (R.below placed plain) _

theorem list_agrees : R.Agree (list node key p code) (list node key q code) := by
  unfold list
  split
  · exact .ok []
  · exact .ok []
  · exact .ok _
  · exact refuse_agrees (R.below placed plain) _

/-- The items of a list stand at its positions. -/
theorem at_of_list {items : List Document} (read : list node key p code = .ok items)
    {position : Nat} {item : Document} (found : items[position]? = some item) :
    R.At ((p.key key).index position) ((q.key key).index position) item := by
  rcases get?_of_list read with rfl | entry
  · cases found
  · exact R.item (R.key placed plain entry) found

theorem strings_agrees : R.Agree (strings node key p code) (strings node key q code) := by
  refine .bind (list_agrees placed plain) fun items read => .each fun position item found => ?_
  split
  · exact .ok _
  · exact refuse_agrees (R.here (at_of_list placed plain read found)) _

/-- The texts of a list of strings stand at its positions. -/
theorem points_of_strings {texts : List String} (read : strings node key p code = .ok texts)
    {position : Nat} {text : String} (found : texts[position]? = some text) :
    R.Points ((p.key key).index position) ((q.key key).index position) := by
  obtain ⟨items, onItems, onTexts⟩ := bind_eq_ok_iff.mp read
  obtain ⟨item, here, _⟩ := getElem?_of_each onTexts found
  exact R.here (at_of_list placed plain onItems here)

end Entries

/-! ### Types and names -/

section Names

variable (points : R.Points p q)

include points

theorem type_agrees (text : String) (typeParameters : List String) :
    R.Agree (type text p typeParameters) (type text q typeParameters) := by
  unfold type
  split
  · exact .ok _
  · exact refuse_agrees points _

theorem namedType_agrees (text : String) (typeParameters : List String) :
    R.Agree (namedType text p typeParameters) (namedType text q typeParameters) := by
  refine .bind (type_agrees points text typeParameters) fun type _ => ?_
  split
  · exact .ok _
  · exact refuse_agrees points _

variable {scope other : DumpScope} (same : SameScope scope other)

include same

/-- A name that stands for one method stands for the same one in both scopes. -/
theorem method_agrees (name : String) :
    R.Agree (scope.method name p) (other.method name q) := by
  have perm := same.methods name
  unfold DumpScope.method
  generalize scope.methods.filter _ = found at perm
  generalize other.methods.filter _ = otherFound at perm
  -- what happens depends on the number of methods with the name, which is the same in both scopes
  match found with
  | [] =>
    obtain rfl := perm.nil_eq
    exact refuse_agrees points _
  | [only] =>
    obtain rfl := List.singleton_perm.mp perm
    exact .ok only
  | first :: second :: rest =>
    match otherFound with
    | [] => cases perm.length_eq
    | [_] => cases perm.length_eq
    | _ :: _ :: _ => exact refuse_agrees points _

theorem readMethodRef_agrees (text : String) :
    R.Agree (readMethodRef scope text p) (readMethodRef other text q) := by
  unfold readMethodRef
  split
  · exact (method_agrees points same text).map _
  · dsimp only
    split
    · exact refuse_agrees points _
    · rw [same.typeParameters]
      exact .bind (type_agrees points _ _) fun type _ => .ok _

end Names

/-! ### Declarations -/

section Declarations

/-- A token that is given does not depend on the default. -/
theorem isSome_of_givesToken (gives : GivesToken node) {token : Option Int}
    (read : integer? node "token" p code = .ok token) : token.isSome = true := by
  obtain ⟨value, found, notNull⟩ := gives
  unfold integer? at read
  rw [found] at read
  split at read
  · contradiction
  next isNull => exact absurd (Option.some.inj isNull) notNull
  · cases read
    rfl
  · simp at read

variable (placed : R.At p q node) {scope other : DumpScope} (same : SameScope scope other)

include placed

theorem readAttributes_agrees {key : String} (plain : PlainKey key) (typeParameters : List String) :
    R.Agree (readAttributes node key p code typeParameters)
      (readAttributes node key q code typeParameters) :=
  .bind (strings_agrees placed plain) fun _ read => .each fun _ text found =>
    type_agrees (points_of_strings placed plain read found) text typeParameters

theorem readHasBody_agrees : R.Agree (readHasBody node p) (readHasBody node q) := by
  unfold readHasBody
  split
  · exact .ok false
  · exact .ok false
  · exact .ok true
  · exact refuse_agrees (R.below placed (by decide)) _

include same

theorem readMember_agrees {token otherToken : Int} (given : token = otherToken ∨ GivesToken node)
    (access : Accessibility) :
    R.Agree (readMember node p code scope token access)
      (readMember node q code other otherToken access) := by
  refine .bind (string_agrees placed (by decide)) fun name _ => ?_
  refine .bind (integer?_agrees placed (by decide)) fun found read => ?_
  refine .bind (flag_agrees placed (by decide)) fun isStatic _ => ?_
  rw [same.typeParameters, same.selfType]
  refine .bind (readAttributes_agrees placed (by decide) _) fun attributes _ => ?_
  refine .bind (flag_agrees placed (by decide)) fun isExplicit _ => ?_
  -- this is the only place where the position of an entry gets into its value
  have sameToken : found.getD token = found.getD otherToken := by
    rcases given with rfl | gives
    · rfl
    · obtain ⟨value, rfl⟩ := Option.isSome_iff_exists.mp (isSome_of_givesToken gives read)
      rfl
  rw [sameToken]
  exact .ok _

theorem readType_agrees : R.Agree (readType node p code scope) (readType node q code other) := by
  refine .bind (string_agrees placed (by decide)) fun text _ => ?_
  rw [same.typeParameters]
  exact type_agrees (R.below placed (by decide)) _ _

theorem readParameters_agrees :
    R.Agree (readParameters node p code scope) (readParameters node q code other) := by
  refine .bind (list_agrees placed (by decide)) fun items read => .each fun position item found => ?_
  have here := at_of_list placed (by decide) read found
  unfold readParameter
  dsimp only
  split
  · rw [same.typeParameters]
    exact .bind (type_agrees (R.here here) _ _) fun type _ => .ok _
  · refine .bind (string_agrees here (by decide)) fun name _ => ?_
    exact .bind (readType_agrees here same) fun type _ => .ok _
  · exact refuse_agrees (R.here here) _

theorem readAccessor_agrees {key : String} (plain : PlainKey key) :
    R.Agree (readAccessor node key p scope) (readAccessor node key q other) := by
  refine .bind (string?_agrees placed plain) fun name? _ => ?_
  split
  · exact (method_agrees (R.below placed plain) same _).map some
  · exact .ok none

end Declarations

section Members

variable {value : Document} {scope other : DumpScope} (same : SameScope scope other)
  {position otherPosition : Nat} (given : position = otherPosition ∨ GivesToken value)

include same given

theorem readField_agrees
    (placed : R.At ((DocPath.root.key "fields").index position)
      ((DocPath.root.key "fields").index otherPosition) value) :
    R.Agree (readField scope position value) (readField other otherPosition value) := by
  refine .bind (object_agrees placed _) fun node read => ?_
  obtain ⟨_, rfl⟩ := object_eq_ok_iff.mp read
  have token := given.imp_left fun same => congrArg (fun n : Nat => firstFieldToken + n) same
  refine .bind (readMember_agrees placed same token _) fun member _ => ?_
  refine .bind (accessibility_agrees placed _) fun accessibility _ => ?_
  exact .bind (readType_agrees placed same) fun type _ => .ok _

theorem readMethod_agrees
    (placed : R.At ((DocPath.root.key "methods").index position)
      ((DocPath.root.key "methods").index otherPosition) value) :
    R.Agree (readMethod scope position value) (readMethod other otherPosition value) := by
  refine .bind (object_agrees placed _) fun node read => ?_
  obtain ⟨_, rfl⟩ := object_eq_ok_iff.mp read
  -- the position of an entry matters for its default token only
  have token := given.imp_left fun same => congrArg (fun n : Nat => firstMethodToken + n) same
  refine .bind (readMember_agrees placed same token _) fun member _ => ?_
  refine .bind (string?_agrees placed (by decide)) fun returnText _ => ?_
  refine .bind (readHasBody_agrees placed) fun hasBody _ => ?_
  refine .bind (accessibility_agrees placed _) fun accessibility _ => ?_
  refine .bind (readParameters_agrees placed same) fun parameters _ => ?_
  rw [same.typeParameters]
  refine .bind (type_agrees (R.below placed (by decide)) _ _) fun returnType _ => ?_
  refine .bind (readAttributes_agrees placed (by decide) _) fun returnAttributes _ => ?_
  refine .bind (flag_agrees placed (by decide)) fun isVirtual _ => ?_
  refine .bind (flag_agrees placed (by decide)) fun isOverride _ => ?_
  refine .bind (flag_agrees placed (by decide)) fun isSealed _ => ?_
  refine .bind (flag_agrees placed (by decide)) fun isAbstract _ => ?_
  exact .bind (flag_agrees placed (by decide)) fun isOperator _ => .ok _

theorem readProperty_agrees
    (placed : R.At ((DocPath.root.key "properties").index position)
      ((DocPath.root.key "properties").index otherPosition) value) :
    R.Agree (readProperty scope position value) (readProperty other otherPosition value) := by
  refine .bind (object_agrees placed _) fun node read => ?_
  obtain ⟨_, rfl⟩ := object_eq_ok_iff.mp read
  have token := given.imp_left fun same => congrArg (fun n : Nat => firstPropertyToken + n) same
  refine .bind (readMember_agrees placed same token _) fun member _ => ?_
  refine .bind (accessibility_agrees placed _) fun accessibility _ => ?_
  refine .bind (readType_agrees placed same) fun type _ => ?_
  refine .bind (readParameters_agrees placed same) fun parameters _ => ?_
  refine .bind (readAccessor_agrees placed same (by decide)) fun getter _ => ?_
  refine .bind (readAccessor_agrees placed same (by decide)) fun setter _ => ?_
  refine .bind (flag_agrees placed (by decide)) fun isVirtual _ => ?_
  refine .bind (flag_agrees placed (by decide)) fun isOverride _ => ?_
  exact .bind (flag_agrees placed (by decide)) fun isSealed _ => .ok _

end Members

/-- The header stands below the root, if it is there. -/
theorem readHeader_agrees {root : Document} (placed : R.At .root .root root) :
    R.Agree (readHeader (root.get? "record")) (readHeader (root.get? "record")) := by
  unfold readHeader
  dsimp only
  -- a header that is not there is refused at its key, below the root
  cases found : root.get? "record" with
  | none => exact .error (R.below placed (by decide) _ _)
  | some value =>
    have here := R.key placed (by decide) found
    refine .bind (object_agrees here _) fun node read => ?_
    obtain ⟨_, rfl⟩ := object_eq_ok_iff.mp read
    refine .bind (string_agrees here (by decide)) fun name _ => ?_
    refine .bind (string?_agrees here (by decide)) fun ns _ => ?_
    refine .bind (strings_agrees here (by decide)) fun typeParameters _ => ?_
    refine .bind (string?_agrees here (by decide)) fun baseText _ => ?_
    refine .bind (strings_agrees here (by decide)) fun texts onTexts => ?_
    refine .bind (.each fun position text found => namedType_agrees
      (points_of_strings here (by decide) onTexts found) _ _) fun interfaces _ => ?_
    split
    · exact .bind ((namedType_agrees (R.below here (by decide)) _ _).map some) fun _ _ => .ok _
    · exact .ok _

/-! ### Instructions -/

section References

variable (placed : R.At p q node) {scope other : DumpScope} (same : SameScope scope other)

include placed same

theorem readFieldRef_agrees :
    R.Agree (readFieldRef scope node p) (readFieldRef other node q) := by
  unfold readFieldRef
  dsimp only
  cases found : node.get? "field" with
  | none => exact .error (R.below placed (by decide) _ _)
  | some value =>
    have here := R.key placed (by decide) found
    -- a bare name is looked up in the scope, an object describes the field itself
    split
    next name isName =>
      rw [same.fields name]
      split
      · exact .ok _
      · exact refuse_agrees (R.here here) _
    · rw [Option.getD_some]
      refine .bind (object_agrees here _) fun node read => ?_
      obtain ⟨_, rfl⟩ := object_eq_ok_iff.mp read
      refine .bind (string_agrees here (by decide)) fun name _ => ?_
      refine .bind (string_agrees here (by decide)) fun text _ => ?_
      rw [same.typeParameters]
      refine .bind (type_agrees (R.below here (by decide)) _ _) fun declaringType _ => ?_
      exact .bind (readType_agrees here same) fun type _ => .ok _

end References

section Instructions

variable {scope other : BodyScope} (vars : scope.vars = other.vars)

include vars

theorem findVariable_agrees (points : R.Points p q) (name : String) :
    R.Agree (findVariable scope name p) (findVariable other name q) := by
  unfold findVariable
  rw [vars]
  split
  · exact .ok _
  · exact refuse_agrees points _

theorem readBare_agrees (points : R.Points p q) (operation : String) :
    R.Agree (readBare scope operation p) (readBare other operation q) := by
  unfold readBare
  split
  · exact .ok _
  · exact .ok _
  · exact (findVariable_agrees vars points "this").map _
  · exact refuse_agrees points _

theorem readVariable_agrees (placed : R.At p q node) :
    R.Agree (readVariable scope node p) (readVariable other node q) :=
  .bind (string_agrees placed (by decide)) fun name _ =>
    findVariable_agrees vars (R.below placed (by decide)) name

end Instructions

section Operands

theorem readContainer_agrees (placed : R.At p q node) :
    R.Agree (readContainer node p) (readContainer node q) := by
  refine .bind (string?_agrees placed (by decide)) fun container _ => ?_
  split
  · exact .ok _
  · exact .ok _
  · exact refuse_agrees (R.below placed (by decide)) _

theorem readComparison_agrees (placed : R.At p q node) :
    R.Agree (readComparison node p) (readComparison node q) := by
  unfold readComparison
  dsimp only
  split
  · exact .ok _
  · exact refuse_agrees (R.below placed (by decide)) _

/-- All that is read below a node agrees. -/
def AgreeBelow (R : Relocation) (node : Document) (read otherRead : Below node Instr) : Prop :=
  ∀ value small p q, R.At p q value → R.Agree (read value small p) (otherRead value small q)

variable {read otherRead : Below node Instr} (placed : R.At p q node)
  (below : R.AgreeBelow node read otherRead) {key : String} (plain : PlainKey key)

include placed below plain

theorem readOperand_agrees :
    R.Agree (readOperand node key p read) (readOperand node key q otherRead) := by
  unfold readOperand
  split
  next value found => exact below _ _ _ _ (R.key placed plain found)
  · exact refuse_agrees (R.below placed plain) _

theorem readOptional_agrees :
    R.Agree (readOptional node key p read) (readOptional node key q otherRead) := by
  unfold readOptional
  split
  · exact readOperand_agrees placed below plain
  · exact .ok Instr.nop

theorem readOperands_agrees :
    R.Agree (readOperands node key p read) (readOperands node key q otherRead) := by
  unfold readOperands
  split
  · exact .ok []
  · exact .ok []
  next items found =>
    refine .each fun position item inItems => below _ _ _ _ ?_
    have here : (items.attach.map Subtype.val)[position]? = some item.1 := by
      rw [List.getElem?_map, inItems]
      rfl
    rw [List.attach_map_subtype_val] at here
    exact R.item (R.key placed plain found) here
  · exact refuse_agrees (R.below placed plain) _

end Operands

/-- Instructions agree; the induction is on the size of the node. -/
theorem readInstr_agrees {scope other : BodyScope}
    (same : SameScope scope.toDumpScope other.toDumpScope) (vars : scope.vars = other.vars)
    (value : Document) {p q : DocPath} (placed : R.At p q value) :
    R.Agree (readInstr scope value p) (readInstr other value q) := by
  have below : R.AgreeBelow value (fun node _ path => readInstr scope node path)
      (fun node _ path => readInstr other node path) :=
    fun node small p q placed => readInstr_agrees same vars node placed
  cases value with
  | string operation =>
    rw [readInstr, readInstr]
    exact readBare_agrees vars (R.here placed) operation
  | object entries =>
    rw [readInstr, readInstr]
    refine .bind (string_agrees placed (by decide)) fun name _ => ?_
    cases Operation.ofName? name with
    | none => exact refuse_agrees (R.below placed (by decide)) _
    | some operation =>
      cases operation with
      | nop | null | this =>
        -- an object without operands is read like its bare name
        exact readBare_agrees vars (R.here placed) name
      | leave =>
        refine .bind (readContainer_agrees placed) fun container _ => ?_
        exact .bind (readOptional_agrees placed below (by decide)) fun value _ => .ok _
      | block =>
        exact .bind (readOperands_agrees placed below (by decide)) fun instructions _ => .ok _
      | branch =>
        refine .bind (readOperand_agrees placed below (by decide)) fun condition _ => ?_
        refine .bind (readOperand_agrees placed below (by decide)) fun onTrue _ => ?_
        exact .bind (readOptional_agrees placed below (by decide)) fun onFalse _ => .ok _
      | call kind =>
        refine .bind (string_agrees placed (by decide)) fun text _ => ?_
        refine .bind (readMethodRef_agrees (R.below placed (by decide)) same text) fun method _ => ?_
        exact .bind (readOperands_agrees placed below (by decide)) fun args _ => .ok _
      | loadField | loadFieldAddress =>
        refine .bind (readFieldRef_agrees placed same) fun field _ => ?_
        exact .bind (readOperand_agrees placed below (by decide)) fun target _ => .ok _
      | loadStatic => exact .bind (readFieldRef_agrees placed same) fun field _ => .ok _
      | storeField =>
        refine .bind (readOperand_agrees placed below (by decide)) fun target _ => ?_
        refine .bind (readFieldRef_agrees placed same) fun field _ => ?_
        exact .bind (readOperand_agrees placed below (by decide)) fun value _ => .ok _
      | storeStatic =>
        refine .bind (readFieldRef_agrees placed same) fun field _ => ?_
        exact .bind (readOperand_agrees placed below (by decide)) fun value _ => .ok _
      | load => exact .bind (readVariable_agrees vars placed) fun v _ => .ok _
      | store =>
        refine .bind (readVariable_agrees vars placed) fun v _ => ?_
        exact .bind (readOperand_agrees placed below (by decide)) fun value _ => .ok _
      | both =>
        refine .bind (readOperands_agrees placed below (by decide)) fun conditions _ => ?_
        split
        · exact .ok _
        · exact refuse_agrees (R.below placed (by decide)) _
      | compare =>
        refine .bind (readComparison_agrees placed) fun comparison _ => ?_
        refine .bind (readOperand_agrees placed below (by decide)) fun left _ => ?_
        exact .bind (readOperand_agrees placed below (by decide)) fun right _ => .ok _
      | text | int =>
        dsimp only
        split
        · exact .ok _
        · exact refuse_agrees (R.below placed (by decide)) _
      | addressOf =>
        refine .bind (readOperand_agrees placed below (by decide)) fun operand _ => ?_
        exact .bind (readType_agrees placed same) fun type _ => .ok _
      | typeToken => exact .bind (readType_agrees placed same) fun type _ => .ok _
  | _ =>
    rw [readInstr, readInstr]
    · exact refuse_agrees (R.here placed) _
    all_goals simp
termination_by sizeOf value

/-! ### Bodies -/

theorem declareParameters_agrees {position : Nat} {vars : List Variable}
    {parameters : List Parameter}
    (points : ∀ index parameter, parameters[index]? = some parameter →
      R.Pairs ⟨.duplicateDeclaration, (p.key "parameters").index (position + index),
          .duplicateVariable parameter.name⟩
        ⟨.duplicateDeclaration, (q.key "parameters").index (position + index),
          .duplicateVariable parameter.name⟩) :
    R.Agree (declareParameters p vars position parameters)
      (declareParameters q vars position parameters) := by
  induction parameters generalizing position vars with
  | nil => exact .ok vars
  | cons parameter rest ih =>
    refine .bind ?_ fun declared _ => ih fun index other found => ?_
    · unfold declare
      split
      · exact .error (points 0 parameter rfl)
      · exact .ok _
    · -- a position in the rest is one further in the whole list
      have behind := points (index + 1) other found
      rwa [← Nat.add_assoc, Nat.add_right_comm] at behind

theorem declareLocals_agrees {scope other : DumpScope} (same : SameScope scope other)
    {position : Nat} {vars : List Variable} {items : List Document}
    (placed : ∀ index item, items[index]? = some item →
      R.At ((p.key "locals").index (position + index)) ((q.key "locals").index (position + index))
        item) :
    R.Agree (declareLocals scope p vars position items)
      (declareLocals other q vars position items) := by
  induction items generalizing position vars with
  | nil => exact .ok vars
  | cons item rest ih =>
    have here : R.At ((p.key "locals").index position) ((q.key "locals").index position) item :=
      placed 0 item rfl
    refine .bind (object_agrees here _) fun node read => ?_
    obtain ⟨_, rfl⟩ := object_eq_ok_iff.mp read
    refine .bind (string_agrees here (by decide)) fun name _ => ?_
    refine .bind (readType_agrees here same) fun type _ => ?_
    refine .bind ?_ fun declared _ => ih fun index other found => ?_
    · unfold declare
      split
      · exact refuse_agrees (R.here here) _
      · exact .ok _
    · have behind := placed (index + 1) other found
      rwa [← Nat.add_assoc, Nat.add_right_comm] at behind

/-- Bodies agree, if the problems of parameters that repeat a name do. -/
theorem readBody_agrees {scope other : DumpScope} (same : SameScope scope other)
    (placed : R.At p q node) {method : Method}
    (repeated : ∀ index parameter, method.parameters[index]? = some parameter →
      R.Pairs ⟨.duplicateDeclaration, (p.key "parameters").index index,
          .duplicateVariable parameter.name⟩
        ⟨.duplicateDeclaration, (q.key "parameters").index index,
          .duplicateVariable parameter.name⟩) :
    R.Agree (readBody scope method node p) (readBody other method node q) := by
  refine .bind (object_agrees placed _) fun value read => ?_
  obtain ⟨_, rfl⟩ := object_eq_ok_iff.mp read
  have receiver : receiver scope method = receiver other method := by
    simp only [Dump.receiver, same.selfType]
  refine .bind ?_ fun vars _ => ?_
  · unfold declareVariables
    rw [receiver]
    -- the parameters are no nodes below the body, so `repeated` speaks of their problems
    refine .bind (declareParameters_agrees (by simpa using repeated)) fun vars _ => ?_
    refine .bind (list_agrees placed (by decide)) fun items read => ?_
    refine declareLocals_agrees same fun index item found => ?_
    rw [Nat.zero_add]
    exact at_of_list placed (by decide) read found
  · refine .bind (list_agrees placed (by decide)) fun items read => ?_
    refine .bind (.each fun position item found => ?_) fun instructions _ => ?_
    · refine readInstr_agrees ?_ ?_ item (at_of_list placed (by decide) read found)
      · exact same
      · rfl
    · split
      · exact refuse_agrees (R.below placed (by decide)) _
      · exact .ok _

end Relocation

end MemberOrigin.Dump
