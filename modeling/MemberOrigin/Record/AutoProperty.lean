import MemberOrigin.Code.Pattern
import MemberOrigin.Record.BackingFields
import MemberOrigin.Record.Query

/-!
# Automatic properties

A property is automatic if its accessors do nothing but read and write a field that carries the
compiler's name for it. Both accessors have to use the same field, and the record has to declare it.
-/
namespace MemberOrigin

/-- The name of the field that the compiler emits for an automatic property. -/
def backingFieldName (property : String) : String :=
  "<" ++ property ++ ">k__BackingField"

/-- Whether a type is the record itself over its own type parameters; the outer annotation does not
matter. -/
def RecordHeader.isSelf (header : RecordHeader) : Ty → Bool
  | .named ns name args _ => Ty.same (.named ns name args false) header.selfType
  | _ => false

namespace AutoProperty

/-- The field that a getter returns, if the getter does nothing else. -/
def fieldRead? (isStatic : Bool) : List Instr → Option FieldRef
  | [.leave .body value] =>
    if isStatic then value.staticLoad?
    else match value with
      | .loadField target field => if target.loadsThis then some field else none
      | _ => none
  | _ => none

/-- Whether an instruction loads the value that a setter receives. -/
def loadsValue : Instr → Bool
  | .load v => v.kind == .parameter && v.index == 0
  | _ => false

/-- The field that a setter assigns its value to, if the setter does nothing else. -/
def fieldWritten? (isStatic : Bool) : List Instr → Option FieldRef
  | [.storeField target field value, .leave .body .nop] =>
    if !isStatic && target.loadsThis && loadsValue value then some field else none
  | [.storeStatic field value, .leave .body .nop] =>
    if isStatic && loadsValue value then some field else none
  | _ => none

/-- The field that the accessor uses, by its body. -/
def accessed (pattern : Bool → List Instr → Option FieldRef) (accessor : Method) :
    Query (Option FieldRef) := do
  let body? ← Query.fetch accessor
  return body?.bind fun body => pattern accessor.isStatic body.instructions

/-- The declared field that the accessors were found to use. -/
def declared? (record : RecordType) (property : Property) (field : FieldRef) : Option Field :=
  if record.isSelf field.declaringType && field.name == backingFieldName property.name then
    record.fields.find? fun declared => declared.toRef.same field
  else none

/-- Looks at the setter, when the getter uses the field `read?` or is missing. -/
def withSetter (record : RecordType) (property : Property) (read? : Option FieldRef) :
    Query (Option Field) :=
  match property.setter with
  | none => return read?.bind (declared? record property)
  | some setter => do
    match ← accessed fieldWritten? setter with
    | none => return none
    | some written =>
      if read?.all (·.same written) then return declared? record property written
      else return none

/-- The backing field of a property, if the property is automatic. -/
def backingField? (record : RecordType) (property : Property) : Query (Option Field) :=
  if !property.parameters.isEmpty then return none
  else match property.getter with
    | none => withSetter record property none
    | some getter => do
      match ← accessed fieldRead? getter with
      | none => return none
      | some read => withSetter record property (some read)

/-- The automatic ones among properties, with their fields. -/
def pairs (record : RecordType) : List Property → Query (List (Property × Field))
  | [] => return []
  | property :: rest => .checkpoint do
    let field? ← backingField? record property
    let others ← pairs record rest
    match field? with
    | some field => return (property, field) :: others
    | none => return others

/-- Pairs every automatic property of the record with its field. -/
def detect (record : RecordType) : Query BackingFields := do
  match BackingFields.ofPairs (← pairs record record.properties) with
  | .ok backing => return backing
  | .error (property, field) => Query.fail (.notOneToOne property.name field.name)

end AutoProperty

end MemberOrigin
