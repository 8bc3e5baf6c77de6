import MemberOrigin.Member.Basic
import MemberOrigin.Ty.Format

/-!
# Signatures

One-line texts of methods, properties and record names, as reports show them.
-/
namespace MemberOrigin

/-- The qualified name of a record with its type parameters. -/
def RecordHeader.qualifiedName (header : RecordHeader) : String :=
  Ty.qualify header.ns header.name ++
    if header.typeParameters.isEmpty then ""
    else "<" ++ ", ".intercalate header.typeParameters ++ ">"

def staticMark (isStatic : Bool) : String :=
  if isStatic then "static " else ""

/-- The return type, the name and the types of the parameters. -/
def Method.signature (method : Method) : String :=
  staticMark method.isStatic ++ method.returnType.format ++ " " ++ method.name ++ "("
    ++ ", ".intercalate (method.parameters.map fun parameter => parameter.type.format) ++ ")"

/-- The type, the name and the accessors. -/
def Property.signature (property : Property) : String :=
  let accessors := (if property.getter.isSome then ["get;"] else [])
    ++ (if property.setter.isSome then ["set;"] else [])
  staticMark property.isStatic ++ property.type.format ++ " " ++ property.name ++ " \x7b "
    ++ " ".intercalate accessors ++ " \x7d"

end MemberOrigin
