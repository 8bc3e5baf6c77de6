import MemberOrigin.Dump.Reader

/-!
# Reading declarations

The header of a record and its fields, methods and properties, from the nodes of a dump. A member
without a token gets the one of its position in the metadata table of its kind.
-/
namespace MemberOrigin

/-- What the declarations and bodies of a dump may refer to. -/
structure DumpScope where
  selfType : Ty
  typeParameters : List String
  fields : List Field := []
  methods : List Method := []
deriving Inhabited

namespace DumpScope

def field? (scope : DumpScope) (name : String) : Option Field :=
  scope.fields.find? fun field => field.name == name

/-- The one method that is declared under a name. -/
def method (scope : DumpScope) (name : String) (path : DocPath) : Reading Method :=
  match scope.methods.filter fun method => method.name == name with
  | [] => Reading.refuse .unknownMember path (.unknownMethod name)
  | [only] => .ok only
  | _ => Reading.refuse .unknownMember path (.ambiguousMethod name)

end DumpScope

namespace Dump

open Reading

/-- The first tokens of the metadata tables. -/
def firstFieldToken : Int := 0x04000001

def firstMethodToken : Int := 0x06000001

def firstPropertyToken : Int := 0x17000001

/-- Reads the header of a record. -/
def readHeader (value : Option Document) : Reading RecordHeader := do
  let path := DocPath.root.key "record"
  let node ← object (value.getD .null) path .invalidRecord "'record'"
  let name ← string node "name" path .invalidRecord
  let ns ← string? node "namespace" path .invalidRecord
  let typeParameters ← strings node "typeParameters" path .invalidRecord
  let baseText ← string? node "baseType" path .invalidRecord
  let interfaceTexts ← strings node "interfaces" path .invalidRecord
  let interfaces ← each (fun position text =>
    namedType text ((path.key "interfaces").index position) typeParameters) 0 interfaceTexts
  let baseType ← match baseText with
    | some text => (namedType text (path.key "baseType") typeParameters).map some
    | none => .ok none
  return { ns := ns.getD "", name, typeParameters, baseType, interfaces }

/-- Reads a list of attribute types. -/
def readAttributes (node : Document) (key : String) (path : DocPath) (code : DiagnosticCode)
    (typeParameters : List String) : Reading (List Ty) := do
  let texts ← strings node key path code
  each (fun position text => type text ((path.key key).index position) typeParameters) 0 texts

/-- Reads what all members have. The accessibility comes from elsewhere in the order of reading. -/
def readMember (node : Document) (path : DocPath) (code : DiagnosticCode) (scope : DumpScope)
    (defaultToken : Int) (defaultAccess : Accessibility) : Reading Member := do
  let name ← string node "name" path code
  let token ← integer? node "token" path code
  let isStatic ← flag node "isStatic" path code
  let attributes ← readAttributes node "attributes" path code scope.typeParameters
  let isExplicitImplementation ← flag node "isExplicitInterfaceImplementation" path code
  return {
    name
    token := token.getD defaultToken
    declaringType := scope.selfType
    isStatic
    accessibility := defaultAccess
    attributes
    isExplicitImplementation }

/-- Reads a type string under a key. -/
def readType (node : Document) (path : DocPath) (code : DiagnosticCode) (scope : DumpScope) :
    Reading Ty := do
  let text ← string node "type" path code
  type text (path.key "type") scope.typeParameters

/-- Reads the field at a position. -/
def readField (scope : DumpScope) (position : Nat) (value : Document) : Reading Field := do
  let path := (DocPath.root.key "fields").index position
  let node ← object value path .invalidField "Field"
  let member ← readMember node path .invalidField scope (firstFieldToken + position) .privateAccess
  let accessibility ← accessibility node path .invalidField .privateAccess
  let type ← readType node path .invalidField scope
  return { member with accessibility, type }

/-- Reads a parameter: its type string alone, or its name and its type. -/
def readParameter (path : DocPath) (code : DiagnosticCode) (scope : DumpScope) (position : Nat)
    (item : Document) : Reading Parameter :=
  let path := (path.key "parameters").index position
  match item with
  | .string text => do
    let type ← type text path scope.typeParameters
    return { name := "arg" ++ toString position, type }
  | .object entries => do
    let name ← string (.object entries) "name" path code
    let type ← readType (.object entries) path code scope
    return { name, type }
  | _ => refuse code path .badParameter

def readParameters (node : Document) (path : DocPath) (code : DiagnosticCode) (scope : DumpScope) :
    Reading (List Parameter) := do
  each (readParameter path code scope) 0 (← list node "parameters" path code)

/-- Whether the entry of a body, if it is there, is an object. -/
def readHasBody (node : Document) (path : DocPath) : Reading Bool :=
  match node.get? "body" with
  | none | some .null => .ok false
  | some (.object _) => .ok true
  | some _ => refuse .invalidBody (path.key "body") (.notObject "Method body")

/-- Whether a name is that of an operator. -/
def isOperatorName (name : String) : Bool :=
  "op_".toList.isPrefixOf name.toList

/-- Reads the method at a position. -/
def readMethod (scope : DumpScope) (position : Nat) (value : Document) : Reading Method := do
  let path := (DocPath.root.key "methods").index position
  let code := .invalidMethod
  let node ← object value path code "Method"
  let member ← readMember node path code scope (firstMethodToken + position) .publicAccess
  let returnText ← string? node "returnType" path code
  -- the form of a body is checked here, what is in it only once all methods are known
  let hasBody ← readHasBody node path
  let accessibility ← accessibility node path code .publicAccess
  let parameters ← readParameters node path code scope
  let returnType ← type (returnText.getD "void") (path.key "returnType") scope.typeParameters
  let returnAttributes ← readAttributes node "returnTypeAttributes" path code scope.typeParameters
  let isVirtual ← flag node "isVirtual" path code
  let isOverride ← flag node "isOverride" path code
  let isSealed ← flag node "isSealed" path code
  let isAbstract ← flag node "isAbstract" path code
  let isOperator ← flag node "isOperator" path code
  return {
    member with
    accessibility, parameters, returnType, returnAttributes, isVirtual, isOverride, isSealed
    isAbstract
    isOperator := isOperator || isOperatorName member.name
    hasBody }

/-- Reads an accessor of a property: the name of a method of the record. -/
def readAccessor (node : Document) (key : String) (path : DocPath) (scope : DumpScope) :
    Reading (Option Method) := do
  match ← string? node key path .invalidProperty with
  | some name => (scope.method name (path.key key)).map some
  | none => return none

/-- Reads the property at a position. -/
def readProperty (scope : DumpScope) (position : Nat) (value : Document) : Reading Property := do
  let path := (DocPath.root.key "properties").index position
  let code := .invalidProperty
  let node ← object value path code "Property"
  let member ← readMember node path code scope (firstPropertyToken + position) .publicAccess
  let accessibility ← accessibility node path code .publicAccess
  let type ← readType node path code scope
  let parameters ← readParameters node path code scope
  let getter ← readAccessor node "getter" path scope
  let setter ← readAccessor node "setter" path scope
  let isVirtual ← flag node "isVirtual" path code
  let isOverride ← flag node "isOverride" path code
  let isSealed ← flag node "isSealed" path code
  return {
    member with
    accessibility, type, parameters, getter, setter, isVirtual, isOverride, isSealed }

end Dump

end MemberOrigin
