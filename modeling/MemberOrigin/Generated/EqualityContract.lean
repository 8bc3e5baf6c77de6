import MemberOrigin.Record.Analysis

/-!
# The generated equality contract

The compiler gives a record a protected virtual property whose getter, marked as compiler-generated,
returns the runtime type of the record.
-/
namespace MemberOrigin.Generated

/-- The signature of a generated equality contract, given its getter. -/
def hasContractSignature (property : Property) (getter : Method) : Bool :=
  property.accessibility == .protectedAccess && (property.isVirtual || property.isOverride)
    && !property.isSealed && property.setter.isNone && property.attributes.isEmpty
    && getter.returnAttributes.isEmpty
    && match getter.attributes with
      | [marker] => marker.isKnown .compilerGenerated
      | _ => false

/-- A body that returns the runtime type of the record and does nothing else. -/
def returnsRecordType (record : RecordType) : List Instr → Bool
  | [.leave .body value] => value.typeOf?.any record.isSelf
  | _ => false

/-- Whether the compiler synthesized this equality contract. -/
def equalityContract (analysis : Analysis) (property : Property) : Query Bool :=
  analysis.expect (property.name == equalityContractName)
    ("expected " ++ equalityContractName ++ ", got " ++ property.name) <|
  match property.getter with
  | none => return false
  | some getter =>
    if hasContractSignature property getter then do
      let body? ← Query.fetch getter
      return body?.any fun body => returnsRecordType analysis.record body.instructions
    else return false

end MemberOrigin.Generated
