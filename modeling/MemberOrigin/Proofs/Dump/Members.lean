import MemberOrigin.Dump.Members
import MemberOrigin.Proofs.Dump.Reading

/-!
# Scoping of declarations

Every member that is read belongs to the record, and an accessor of a property is the one method of
its name.
-/
namespace MemberOrigin.Dump

open Reading

/-- The method of a name is the only one under this name. -/
theorem method_eq_ok_iff {scope : DumpScope} {name : String} {path : DocPath} {method : Method} :
    scope.method name path = .ok method ↔
      scope.methods.filter (fun other => other.name == name) = [method] := by
  unfold DumpScope.method
  split
  next none => simp [none]
  next only single => simp [single]
  next noSingle several => simpa using several method

theorem mem_and_name_of_method {scope : DumpScope} {name : String} {path : DocPath}
    {method : Method} (found : scope.method name path = .ok method) :
    method ∈ scope.methods ∧ method.name = name := by
  have member : method ∈ scope.methods.filter (fun other => other.name == name) := by
    simp [method_eq_ok_iff.mp found]
  simpa using List.mem_filter.mp member

theorem readMember_declaringType {node : Document} {path : DocPath} {code : DiagnosticCode}
    {scope : DumpScope} {token : Int} {access : Accessibility} {member : Member}
    (read : readMember node path code scope token access = .ok member) :
    member.declaringType = scope.selfType := by
  simp only [readMember, bind_eq_ok_iff, pure_eq_ok_iff] at read
  obtain ⟨name, _, given, _, isStatic, _, attributes, _, isExplicit, _, rfl⟩ := read
  rfl

theorem readField_declaringType {scope : DumpScope} {position : Nat} {value : Document}
    {field : Field} (read : readField scope position value = .ok field) :
    field.declaringType = scope.selfType := by
  simp only [readField, bind_eq_ok_iff, pure_eq_ok_iff] at read
  obtain ⟨node, _, member, ofMember, accessibility, _, type, _, rfl⟩ := read
  have belongs := readMember_declaringType ofMember
  exact belongs

/-- A method is read from an object, and belongs to the record. -/
theorem readMethod_declaringType {scope : DumpScope} {position : Nat} {value : Document}
    {method : Method} (read : readMethod scope position value = .ok method) :
    value.isObject = true ∧ method.declaringType = scope.selfType := by
  simp only [readMethod, bind_eq_ok_iff, pure_eq_ok_iff, object_eq_ok_iff] at read
  obtain ⟨node, ⟨isObject, _⟩, member, ofMember, read⟩ := read
  obtain ⟨returnText, _, hasBody, _, accessibility, _, parameters, _, returnType, _, read⟩ := read
  obtain ⟨attributes, _, isVirtual, _, isOverride, _, isSealed, _, isAbstract, _, read⟩ := read
  obtain ⟨isOperator, _, rfl⟩ := read
  have belongs := readMember_declaringType ofMember
  exact ⟨isObject, belongs⟩

theorem readMethod_bodyAndParameters {scope : DumpScope} {position : Nat} {value : Document}
    {method : Method} (read : readMethod scope position value = .ok method) :
    readHasBody value ((DocPath.root.key "methods").index position) = .ok method.hasBody ∧
      readParameters value ((DocPath.root.key "methods").index position) .invalidMethod scope =
        .ok method.parameters := by
  simp only [readMethod, bind_eq_ok_iff, pure_eq_ok_iff, object_eq_ok_iff] at read
  obtain ⟨_, ⟨_, rfl⟩, member, _, returnText, _, hasBody, onBody, accessibility, _, read⟩ := read
  obtain ⟨parameters, onParameters, returnType, _, attributes, _, isVirtual, _, read⟩ := read
  obtain ⟨isOverride, _, isSealed, _, isAbstract, _, isOperator, _, rfl⟩ := read
  exact ⟨onBody, onParameters⟩

/-- A method has a body exactly if there is an object for it. -/
theorem readHasBody_eq_true {node : Document} {path : DocPath}
    (read : readHasBody node path = .ok true) :
    ∃ entries, node.get? "body" = some (.object entries) := by
  unfold readHasBody at read
  split at read
  · cases read
  · cases read
  next entries found => exact ⟨entries, found⟩
  · simp at read

theorem readAccessor_unique {node : Document} {key : String} {path : DocPath} {scope : DumpScope}
    {accessor : Method} (read : readAccessor node key path scope = .ok (some accessor)) :
    scope.methods.filter (fun method => method.name == accessor.name) = [accessor] := by
  simp only [readAccessor, bind_eq_ok_iff] at read
  obtain ⟨name?, _, read⟩ := read
  cases name? with
  | none => simp at read
  | some name =>
    obtain ⟨method, found, same⟩ := map_eq_ok_iff.mp read
    obtain rfl : method = accessor := Option.some.inj same
    -- the property gives a name, and the method that is found carries it
    rw [(mem_and_name_of_method found).2]
    exact method_eq_ok_iff.mp found

/-- A property belongs to the record, and no other method has the name of one of its accessors. -/
theorem readProperty_scoped {scope : DumpScope} {position : Nat} {value : Document}
    {property : Property} (read : readProperty scope position value = .ok property) :
    property.declaringType = scope.selfType ∧
      ∀ accessor, property.getter = some accessor ∨ property.setter = some accessor →
        scope.methods.filter (fun method => method.name == accessor.name) = [accessor] := by
  simp only [readProperty, bind_eq_ok_iff, pure_eq_ok_iff] at read
  obtain ⟨node, _, member, ofMember, accessibility, _, type, _, parameters, _, read⟩ := read
  obtain ⟨getter, onGetter, setter, onSetter, isVirtual, _, isOverride, _, isSealed, _, rfl⟩ := read
  have belongs := readMember_declaringType ofMember
  refine ⟨belongs, ?_⟩
  rintro accessor (rfl | rfl)
  · exact readAccessor_unique onGetter
  · exact readAccessor_unique onSetter

end MemberOrigin.Dump
