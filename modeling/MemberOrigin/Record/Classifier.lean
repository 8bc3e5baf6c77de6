import MemberOrigin.Generated.EqualityContract
import MemberOrigin.Generated.Equals
import MemberOrigin.Generated.Operators
import MemberOrigin.Generated.ToString

/-!
# Origin of members

Decides for each member of an analysed record whether the compiler synthesized it. A member counts
as generated only if its signature and its body have exactly the synthesized form; everything else
was written by hand. A cancelled run gives no verdict.
-/
namespace MemberOrigin.Analysis

/-- The verdict on a method, by its name. -/
def verdictOnMethod (analysis : Analysis) (method : Method) : Query Bool :=
  if method.name == equalityOperatorName || method.name == inequalityOperatorName then
    return Generated.comparisonOperator analysis method
  else if method.name == "Equals" then
    if method.parameters.length != 1 then return false
    else if Generated.objectEquals method then return true
    else if method.parameters.all fun parameter => analysis.record.isSelf parameter.type then
      Generated.equals analysis method
    else return false
  else if method.name == cloneName then return method.parameters.isEmpty
  else if method.name == printMembersName then Generated.printMembers analysis method
  else if method.name == "ToString" then
    if method.parameters.isEmpty then Generated.toString analysis method else return false
  else return false

/-- Whether the compiler synthesized the method. -/
def methodIsGenerated (analysis : Analysis) (method : Method) : Query Bool :=
  .checkpoint (analysis.verdictOnMethod method)

/-- Whether the compiler synthesized the property. -/
def propertyIsGenerated (analysis : Analysis) (property : Property) : Query Bool :=
  .checkpoint <|
    if property.name == equalityContractName then Generated.equalityContract analysis property
    else return false

end MemberOrigin.Analysis
