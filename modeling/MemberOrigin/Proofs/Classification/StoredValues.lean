import MemberOrigin.Proofs.Classification.Answers
import MemberOrigin.Proofs.Code.Storage
import MemberOrigin.Proofs.Record.OneToOne
import MemberOrigin.Proofs.Ty.Identity

/-!
# Values of automatic properties

## Main results

`Dump.accessors_useField`: the accessors of an automatic property of a loaded dump do nothing but read
and write the field that the property is paired with. What the setter stores is what the getter returns
behind it if both are static or none of them is.

`Dump.not_storesValue_staticGetter`: a property is also paired if only its getter is static, and then
the getter does not return what the setter stored.

## Proof strategy

A pair comes from accessors that were found to access the field, each in the form that its own flag
asks for. Both forms are run on a storage that keeps the values of the type and of objects apart.
-/
namespace MemberOrigin

/-! ### Where pairs come from -/

theorem FieldRef.same_congr {reference other : FieldRef} (same : reference.same other = true)
    (left : FieldRef) : left.same reference = left.same other := by
  simp only [FieldRef.same, Bool.and_eq_true, beq_iff_eq, Ty.same_iff] at same
  rw [Bool.eq_iff_iff]
  simp only [FieldRef.same, Bool.and_eq_true, beq_iff_eq, Ty.same_iff, same]

namespace AutoProperty

variable {record : RecordType} {bodies : Method → Option Body} {property : Property} {field : Field}

/-- The method has a body of the form, for a reference to the field. -/
def Accesses (record : RecordType) (bodies : Method → Option Body) (field : Field)
    (form : FieldRef → Bool → List Instr → Prop) (accessor : Method) : Prop :=
  ∃ body reference, Query.bodyOf? bodies accessor = some body ∧
    form reference accessor.isStatic body.instructions ∧
    (record.fields.find? fun declared => declared.toRef.same reference) = some field

/-- A property with accessors that do nothing but access the field. -/
structure UsesField (record : RecordType) (bodies : Method → Option Body) (property : Property)
    (field : Field) : Prop where
  accessible : ∃ accessor, property.IsAccessor accessor
  getter : ∀ getter, property.getter = some getter → Accesses record bodies field ReadsField getter
  setter : ∀ setter, property.setter = some setter → Accesses record bodies field WritesField setter

theorem eval_accessed_bind {α : Type} (pattern : Bool → List Instr → Option FieldRef)
    (accessor : Method) (next : Option FieldRef → Query α) :
    (accessed pattern accessor >>= next).eval bodies =
      (next ((Query.bodyOf? bodies accessor).bind fun body =>
        pattern accessor.isStatic body.instructions)).eval bodies := by
  rw [accessed, bind_assoc, Query.eval_fetch_bind]
  rfl

theorem find?_of_declared? {reference : FieldRef}
    (found : declared? record property reference = some field) :
    (record.fields.find? fun declared => declared.toRef.same reference) = some field := by
  unfold declared? at found
  split at found
  · exact found
  · cases found

/-- Either there is no setter, and the field is the one that was read, or the setter writes the field,
which is the same as the one that was read. -/
theorem of_eval_withSetter {read? : Option FieldRef}
    (found : (withSetter record property read?).eval bodies = .ok (some field)) :
    (∀ setter, property.setter = some setter → Accesses record bodies field WritesField setter) ∧
      (property.setter = none → read?.isSome = true) ∧
      ∀ read, read? = some read →
        (record.fields.find? fun declared => declared.toRef.same read) = some field := by
  unfold withSetter at found
  split at found
  next noSetter =>
    obtain ⟨read, rfl, declared⟩ := Option.bind_eq_some_iff.mp (Except.ok.inj found)
    refine ⟨by simp [noSetter], fun _ => rfl, ?_⟩
    rintro _ ⟨⟩
    exact find?_of_declared? declared
  next setter isSetter =>
    rw [eval_accessed_bind] at found
    split at found
    · cases Except.ok.inj found
    next written isWritten =>
      split at found
      next agree =>
        have declared := find?_of_declared? (Except.ok.inj found)
        obtain ⟨body, hasBody, matched⟩ := Option.bind_eq_some_iff.mp isWritten
        refine ⟨?_, by simp [isSetter], ?_⟩
        · intro other isOther
          obtain rfl : setter = other := Option.some.inj (isSetter.symm.trans isOther)
          exact ⟨body, written, hasBody, fieldWritten?_eq_some_iff.mp matched, declared⟩
        · rintro read rfl
          simpa only [FieldRef.same_congr (by simpa using agree)] using declared
      · cases Except.ok.inj found

theorem usesField_of_backingField?
    (found : (backingField? record property).eval bodies = .ok (some field)) :
    UsesField record bodies property field := by
  unfold backingField? at found
  split at found
  · cases Except.ok.inj found
  · split at found
    next noGetter =>
      obtain ⟨setter, noSetter, _⟩ := of_eval_withSetter found
      refine ⟨?_, by simp [noGetter], setter⟩
      -- without a getter the field was found by the setter, so there is one
      cases isSetter : property.setter with
      | none => cases noSetter isSetter
      | some accessor => exact ⟨accessor, .inr isSetter⟩
    next getter isGetter =>
      rw [eval_accessed_bind] at found
      split at found
      · cases Except.ok.inj found
      next read isRead =>
        obtain ⟨setter, _, declared⟩ := of_eval_withSetter found
        obtain ⟨body, hasBody, matched⟩ := Option.bind_eq_some_iff.mp isRead
        refine ⟨⟨getter, .inl isGetter⟩, ?_, setter⟩
        intro other isOther
        obtain rfl : getter = other := Option.some.inj (isGetter.symm.trans isOther)
        exact ⟨body, read, hasBody, fieldRead?_eq_some_iff.mp matched, declared read rfl⟩

theorem usesField_of_pairs {properties : List Property} {found : List (Property × Field)}
    (evaluated : (pairs record properties).eval bodies = .ok found) :
    ∀ pair ∈ found, UsesField record bodies pair.1 pair.2 := by
  induction properties generalizing found with
  | nil =>
    cases evaluated
    simp
  | cons property rest ih =>
    rw [pairs, Query.eval] at evaluated
    simp only [Query.eval_bind_eq_ok_iff] at evaluated
    obtain ⟨field?, here, others, behind, collected⟩ := evaluated
    -- a property without a backing field is left out
    cases field? with
    | none =>
      obtain rfl : others = found := Except.ok.inj collected
      exact ih behind
    | some field =>
      obtain rfl : (property, field) :: others = found := Except.ok.inj collected
      exact List.forall_mem_cons.mpr ⟨usesField_of_backingField? here, ih behind⟩

end AutoProperty

/-- The pairs of an analysis are those that were found. -/
theorem Analysis.usesField_of_build {record : RecordType} {checked : Bool}
    {bodies : Method → Option Body} {analysis : Analysis}
    (built : (build record checked).eval bodies = .ok analysis) :
    ∀ pair ∈ analysis.backingFields.pairs,
      AutoProperty.UsesField record bodies pair.1 pair.2 := by
  obtain ⟨backing, detected, rfl⟩ := eval_build_eq_ok_iff.mp built
  obtain ⟨found, evaluated, made⟩ := (Query.eval_bind_eq_ok_iff bodies).mp detected
  cases related : BackingFields.ofPairs found with
  | error pair =>
    rw [related] at made
    cases made
  | ok other =>
    rw [related] at made
    obtain rfl : other = backing := Except.ok.inj made
    -- the relation keeps the pairs that it was made of
    rw [show other.pairs = found from (BackingFields.oneToOne_of_ofPairs related).entries]
    exact AutoProperty.usesField_of_pairs evaluated

/-! ### Calls -/

namespace RecordDump

variable {Object Value : Type} [DecidableEq Object]

/-- Calls an accessor of the record on an object: what it returns, and the storage behind. -/
def call (dump : RecordDump) (accessor : Method) (object : Object) (arguments : List Value)
    (storage : Storage Object Value) : Option (Option Value × Storage Object Value) := do
  let body ← Query.bodyOf? dump.bodies.ofMethod accessor
  Frame.run ⟨dump.record.fields, accessor.place object, arguments⟩ body.instructions storage

/-- What the getter returns on an object behind a call of the setter with a value. -/
def readBack (dump : RecordDump) (getter setter : Method) (object : Object) (value : Value)
    (storage : Storage Object Value) : Option Value := do
  let (_, stored) ← dump.call setter object [value] storage
  let (returned, _) ← dump.call getter object [] stored
  returned

variable {dump : RecordDump} {field : Field} {accessor : Method}

theorem call_getter
    (accesses : AutoProperty.Accesses dump.record dump.bodies.ofMethod field ReadsField accessor)
    (object : Object) (storage : Storage Object Value) :
    dump.call accessor object [] storage =
      some (some (storage.read (accessor.place object) field), storage) := by
  obtain ⟨body, reference, hasBody, reads, declared⟩ := accesses
  let frame : Frame Object Value := ⟨dump.record.fields, accessor.place object, []⟩
  have resolved : frame.field? reference = some field := declared
  rw [call, hasBody]
  exact frame.run_readsField resolved rfl reads

theorem call_setter
    (accesses : AutoProperty.Accesses dump.record dump.bodies.ofMethod field WritesField accessor)
    (object : Object) (value : Value) (storage : Storage Object Value) :
    dump.call accessor object [value] storage =
      some (none, storage.write (accessor.place object) field value) := by
  obtain ⟨body, reference, hasBody, writes, declared⟩ := accesses
  let frame : Frame Object Value := ⟨dump.record.fields, accessor.place object, [value]⟩
  have resolved : frame.field? reference = some field := declared
  rw [call, hasBody]
  exact frame.run_writesField resolved rfl writes rfl

section ReadBack

variable {getter setter : Method}
  (reads : AutoProperty.Accesses dump.record dump.bodies.ofMethod field ReadsField getter)
  (writes : AutoProperty.Accesses dump.record dump.bodies.ofMethod field WritesField setter)
  (object : Object) (value : Value) (storage : Storage Object Value)

include reads writes

theorem readBack_eq : dump.readBack getter setter object value storage =
    some ((storage.write (setter.place object) field value).read (getter.place object) field) := by
  simp [readBack, call_setter writes, call_getter reads]

theorem readBack_of_agree (agree : getter.isStatic = setter.isStatic) :
    dump.readBack getter setter object value storage = some value := by
  have same : getter.place object = setter.place object := by simp [Method.place, agree]
  rw [readBack_eq reads writes, same, Storage.read_write]

/-- If only one of them is static, the getter does not see what is stored. -/
theorem readBack_of_differ (differ : getter.isStatic ≠ setter.isStatic) :
    dump.readBack getter setter object value storage =
      some (storage.read (getter.place object) field) := by
  have apart : getter.place object ≠ setter.place object := by
    unfold Method.place
    cases reads : getter.isStatic <;> cases writes : setter.isStatic <;> simp_all
  rw [readBack_eq reads writes, Storage.read_write_of_ne _ _ _ apart]

end ReadBack

end RecordDump

/-- The accessors of the property do nothing but read and write the field: for an object at the object,
and for the type if they are static themselves. -/
structure RecordDump.KeepsIn (dump : RecordDump) (property : Property) (field : Field) : Prop where
  declared : field ∈ dump.record.fields
  accessible : ∃ accessor, property.IsAccessor accessor
  gets : ∀ getter, property.getter = some getter → ∀ {Object Value : Type} [DecidableEq Object]
    (object : Object) (storage : Storage Object Value), dump.call getter object [] storage =
      some (some (storage.read (getter.place object) field), storage)
  sets : ∀ setter, property.setter = some setter → ∀ {Object Value : Type} [DecidableEq Object]
    (object : Object) (value : Value) (storage : Storage Object Value),
      dump.call setter object [value] storage =
        some (none, storage.write (setter.place object) field value)
  /-- What is stored is returned if both or none are static; otherwise the getter does not see it. -/
  readsBack : ∀ getter setter, property.getter = some getter → property.setter = some setter →
    ∀ {Object Value : Type} [DecidableEq Object] (object : Object) (value : Value)
      (storage : Storage Object Value), dump.readBack getter setter object value storage =
        some (if getter.isStatic = setter.isStatic then value
          else storage.read (getter.place object) field)

theorem RecordDump.keepsIn_of_usesField {dump : RecordDump} {property : Property} {field : Field}
    (declared : field ∈ dump.record.fields)
    (uses : AutoProperty.UsesField dump.record dump.bodies.ofMethod property field) :
    dump.KeepsIn property field where
  declared := declared
  accessible := uses.accessible
  gets getter isGetter := fun object storage => call_getter (uses.getter getter isGetter) object storage
  sets setter isSetter := fun object value storage =>
    call_setter (uses.setter setter isSetter) object value storage
  readsBack getter setter isGetter isSetter := fun object value storage => by
    have reads := uses.getter getter isGetter
    have writes := uses.setter setter isSetter
    -- a value is read back if both accessors are static, or none of them is
    split
    next agree => exact readBack_of_agree reads writes object value storage agree
    next differ => exact readBack_of_differ reads writes object value storage differ

namespace Dump

/-- Every automatic property of a loaded dump is kept in the field that it is paired with. -/
theorem accessors_useField {fileName : String} {document : Document} {dump : RecordDump}
    (loaded : load fileName document = .ok dump) (checked : Bool) :
    ∃ analysis, (Analysis.build dump.record checked).eval dump.bodies.ofMethod = .ok analysis ∧
      ∀ pair ∈ analysis.backingFields.pairs, dump.KeepsIn pair.1 pair.2 := by
  obtain ⟨analysis, built⟩ := exists_analysis loaded checked
  obtain ⟨_, _, oneToOne⟩ := of_build loaded built
  refine ⟨analysis, built, fun pair paired => ?_⟩
  exact RecordDump.keepsIn_of_usesField (oneToOne.declared pair paired)
    (Analysis.usesField_of_build built pair paired)

/-! ### A dump with a getter and a setter -/

/-- A dump of a record with one property, which has the getter of this entry. -/
def storedDocument (getter : Document) : Document :=
  .object [
    ("record", .object [("name", .string "Point")]),
    ("fields", .list [fieldEntry "X" 1]),
    ("methods", .list [getter,
      methodEntry "set_X" 2 "isSealed" [variableEntry "value" "int"] []
        [instructionNode "stfld" [("field", .string "<X>k__BackingField"),
            ("target", .string "ldthis"), ("value", loadNode "value")],
          instructionNode "leave" []]]),
    ("properties", .list [.object [("name", .string "X"), ("type", .string "int"),
      ("getter", .string "get_X"), ("setter", .string "set_X")]])]

/-- What is loaded from it. -/
def storedDump (getter : Document) : RecordDump :=
  (load "point.yaml" (storedDocument getter)).toOption.getD default

def staticGetterEntry : Document :=
  methodEntry "get_X" 1 "isStatic" [] []
    [returnNode (instructionNode "ldsfld" [("field", .string "<X>k__BackingField")])]

/-- The dump loads, and its analysis pairs a property with a field of which only the getter may be
static. -/
def pairsMixed (getter : Document) (getterStatic : Bool) : Bool :=
  (load "point.yaml" (storedDocument getter)).toOption.any fun dump =>
    ((Analysis.build dump.record true).eval dump.bodies.ofMethod).toOption.any fun analysis =>
      analysis.backingFields.pairs.any fun pair =>
        pair.1.isStatic == false && pair.2.isStatic == false &&
          pair.1.getter.any (fun getter => getter.isStatic == getterStatic) &&
          pair.1.setter.any fun setter => setter.isStatic == false

theorem exists_of_pairsMixed {entry : Document} {getterStatic : Bool}
    (paired : pairsMixed entry getterStatic = true) :
    load "point.yaml" (storedDocument entry) = .ok (storedDump entry) ∧
      ∃ analysis property field getter setter,
        (Analysis.build (storedDump entry).record true).eval (storedDump entry).bodies.ofMethod =
          .ok analysis ∧
        (property, field) ∈ analysis.backingFields.pairs ∧
        (property.isStatic = false ∧ field.isStatic = false) ∧
        (property.getter = some getter ∧ getter.isStatic = getterStatic) ∧
        property.setter = some setter ∧ setter.isStatic = false := by
  unfold pairsMixed at paired
  obtain ⟨dump, loads, paired⟩ := (Option.any_eq_true _ _).mp paired
  obtain ⟨analysis, builds, paired⟩ := (Option.any_eq_true _ _).mp paired
  obtain ⟨⟨property, field⟩, listed, flags⟩ := List.any_eq_true.mp paired
  simp only [Bool.and_eq_true, beq_iff_eq, Option.any_eq_true] at flags
  obtain ⟨⟨⟨ofProperty, ofField⟩, getter, isGetter, ofGetter⟩, setter, isSetter, ofSetter⟩ := flags
  have same : storedDump entry = dump := by rw [storedDump, loads, Option.getD_some]
  rw [same]
  exact ⟨Reading.toOption_eq_some_iff.mp loads, analysis, property, field, getter, setter,
    Reading.toOption_eq_some_iff.mp builds, listed, ⟨ofProperty, ofField⟩, ⟨isGetter, ofGetter⟩,
    isSetter, ofSetter⟩

/-- A property with two accessors that are not static is kept in its field. -/
theorem accessors_useField_storedDump :
    load "point.yaml" (storedDocument (getterEntry "X" 1)) = .ok (storedDump (getterEntry "X" 1)) ∧
      ∃ analysis, (Analysis.build (storedDump (getterEntry "X" 1)).record true).eval
          (storedDump (getterEntry "X" 1)).bodies.ofMethod = .ok analysis ∧
        ∃ pair ∈ analysis.backingFields.pairs,
          (storedDump (getterEntry "X" 1)).KeepsIn pair.1 pair.2 := by
  have paired : pairsMixed (getterEntry "X" 1) false = true := by decide +kernel
  obtain ⟨loads, other, property, field, _, _, builds, listed, _⟩ := exists_of_pairsMixed paired
  obtain ⟨analysis, built, keeps⟩ := accessors_useField loads true
  obtain rfl : analysis = other := Except.ok.inj (built.symm.trans builds)
  exact ⟨loads, analysis, built, (property, field), listed, keeps _ listed⟩

/-- Accessors of an automatic property need not agree: here only the getter is static, and on a storage
of zeros it returns zero behind a call of the setter with one. -/
theorem not_storesValue_staticGetter :
    load "point.yaml" (storedDocument staticGetterEntry) = .ok (storedDump staticGetterEntry) ∧
      ∃ analysis property field getter setter,
        (Analysis.build (storedDump staticGetterEntry).record true).eval
          (storedDump staticGetterEntry).bodies.ofMethod = .ok analysis ∧
        (property, field) ∈ analysis.backingFields.pairs ∧
        (property.isStatic = false ∧ field.isStatic = false) ∧
        (property.getter = some getter ∧ getter.isStatic = true) ∧
        (property.setter = some setter ∧ setter.isStatic = false) ∧
        (storedDump staticGetterEntry).readBack getter setter 0 1
          (fun _ _ => 0 : Storage Nat Nat) = some 0 := by
  have paired : pairsMixed staticGetterEntry true = true := by decide +kernel
  obtain ⟨loads, analysis, property, field, getter, setter, built, listed, flags, ofGetter,
    ofSetter⟩ := exists_of_pairsMixed paired
  refine ⟨loads, analysis, property, field, getter, setter, built, listed, flags, ofGetter,
    ofSetter, ?_⟩
  have uses := Analysis.usesField_of_build built _ listed
  -- the accessors use different cells of the storage
  have differ : getter.isStatic ≠ setter.isStatic := by simp [ofGetter.2, ofSetter.2]
  exact RecordDump.readBack_of_differ (uses.getter getter ofGetter.1)
    (uses.setter setter ofSetter.1) 0 1 (fun _ _ => 0) differ

end Dump

end MemberOrigin
