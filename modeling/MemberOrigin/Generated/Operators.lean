import MemberOrigin.Record.Analysis

/-!
# Members that are generated by signature

The compiler refuses user declarations with these signatures, so that no body has to be looked at.
-/
namespace MemberOrigin.Generated

/-- An equality or inequality operator between two records of this type. -/
def comparisonOperator (analysis : Analysis) (method : Method) : Bool :=
  method.parameters.length == 2
    && method.parameters.all fun parameter => analysis.record.isSelf parameter.type

/-- Equality with any object. -/
def objectEquals (method : Method) : Bool :=
  match method.parameters with
  | [parameter] => parameter.type.isKnown .object
  | _ => false

end MemberOrigin.Generated
