import MemberOrigin.Record.Analysis

/-!
# Generated equality

The compiler's `Equals` of a root record returns one conjunction: the other record is not null, the
equality contracts agree, and each compared field agrees under the default comparer of its type.
Compared are the backing fields of the instance properties in the order of the members.
-/
namespace MemberOrigin.Generated

/-- The comparison of the equality contracts of the receiver and `other`. -/
def isContractComparison (other : Variable) : Instr → Bool
  | .call .direct method [left, right] =>
    method.isOperator && method.name == equalityOperatorName && method.declaringType.isKnown .type
      && left.contractTarget?.any Instr.loadsThis
      && right.contractTarget?.any (Instr.loads other)
  | _ => false

/-- The comparison of a field between the receiver and `other`. -/
def isFieldComparison (other : Variable) (field : Field) : Instr → Bool
  | .call .virtual method [comparer, left, right] =>
    method.name == "Equals" && comparer.isDefaultComparer field.type
      && (left.fieldLoadOf? field.toRef).any Instr.loadsThis
      && (right.fieldLoadOf? field.toRef).any (Instr.loads other)
  | _ => false

/-- Members that generated equality compares, if they have a backing field. -/
def isCompared (property : Property) : Bool :=
  !property.isStatic && property.name != equalityContractName

/-- The fields that generated equality compares, in order. -/
def comparedFields (analysis : Analysis) (order : List Property) : List Field :=
  (order.filter isCompared).filterMap analysis.backingFields.fieldOf?

/-- One comparison for each field, in order. -/
def comparesFields (other : Variable) : List Field → List Instr → Bool
  | [], [] => true
  | field :: fields, condition :: conditions =>
    isFieldComparison other field condition && comparesFields other fields conditions
  | _, _ => false

/-- The conditions of generated equality over these fields. -/
def areEqualityConditions (other : Variable) (fields : List Field) : List Instr → Bool
  | notNull :: contract :: conditions =>
    notNull.notNull?.any (Instr.loads other) && isContractComparison other contract
      && comparesFields other fields conditions
  | _ => false

/-- Whether the compiler synthesized this `Equals`. -/
def equals (analysis : Analysis) (method : Method) : Query Bool :=
  analysis.expect (method.name == "Equals" && method.parameters.length == 1)
    ("expected Equals(R), got " ++ method.name ++ "/" ++ toString method.parameters.length) <|
  if method.parameters.length == 1 && method.isOverridable && method.hasNoAttributes then
    match analysis.memberOrder with
    | none => return false
    | some order => do
      match ← Query.fetch method with
      | none => return false
      | some body =>
        match body.instructions.head?.bind Instr.returned?, body.parameter? 0 with
        | some returned, some other =>
          analysis.expect (analysis.record.isSelf other.type)
            ("Equals parameter is not " ++ analysis.record.name) <|
          return !analysis.isInherited
            && areEqualityConditions other (comparedFields analysis order) returned.conjuncts
        | _, _ => return false
  else return false

end MemberOrigin.Generated
