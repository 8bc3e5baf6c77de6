import MemberOrigin.Ty.Identity

/-!
# Members of a record type

Fields, methods and properties as the metadata of a compiled record declares them, and the record
type that holds them. A token identifies a member within its module; token zero names nothing.
-/
namespace MemberOrigin

/-- Who may use a member. -/
inductive Accessibility
  | privateAccess
  | privateProtected
  | protectedAccess
  | internalAccess
  | protectedInternal
  | publicAccess
deriving Repr, DecidableEq, Inhabited

namespace Accessibility

/-- The word for an accessibility. -/
def word : Accessibility → String
  | privateAccess => "private"
  | privateProtected => "privateProtected"
  | protectedAccess => "protected"
  | internalAccess => "internal"
  | protectedInternal => "protectedInternal"
  | publicAccess => "public"

/-- All accessibilities, from the narrowest one on. -/
def all : List Accessibility :=
  [privateAccess, privateProtected, protectedAccess, internalAccess, protectedInternal, publicAccess]

def ofWord? (word : String) : Option Accessibility :=
  all.find? (·.word == word)

end Accessibility

/-- What all members have. -/
structure Member where
  name : String
  token : Int
  declaringType : Ty
  isStatic : Bool
  accessibility : Accessibility
  /-- The types of the custom attributes. -/
  attributes : List Ty
  isExplicitImplementation : Bool
deriving Repr, Inhabited

structure Field extends Member where
  type : Ty
deriving Repr, Inhabited

structure Parameter where
  name : String
  type : Ty
deriving Repr, Inhabited

structure Method extends Member where
  parameters : List Parameter
  returnType : Ty
  returnAttributes : List Ty
  isVirtual : Bool
  isOverride : Bool
  isSealed : Bool
  isAbstract : Bool
  isOperator : Bool
  /-- An abstract or external method has no body. -/
  hasBody : Bool
deriving Repr, Inhabited

structure Property extends Member where
  type : Ty
  /-- The parameters of an indexer; none for an ordinary property. -/
  parameters : List Parameter
  getter : Option Method
  setter : Option Method
  isVirtual : Bool
  isOverride : Bool
  isSealed : Bool
deriving Repr, Inhabited

/-- The name, bases and type parameters of a record type. -/
structure RecordHeader where
  ns : String
  name : String
  typeParameters : List String
  /-- The class that the record extends, if one is written. -/
  baseType : Option Ty
  interfaces : List Ty
deriving Repr, Inhabited

/-- A record type with its members in the order of their declarations. -/
structure RecordType extends RecordHeader where
  fields : List Field
  properties : List Property
  methods : List Method
deriving Repr, Inhabited

/-- The record instantiated over its own type parameters. -/
def RecordHeader.selfType (header : RecordHeader) : Ty :=
  .named header.ns header.name
    (header.typeParameters.mapIdx fun index name => .parameter .type index name false) false

/-- A method as a call names it. The token is there if the module itself declares the method. -/
structure MethodRef where
  name : String
  declaringType : Ty
  isStatic : Bool
  isOperator : Bool := false
  token : Option Int := none
deriving Repr, Inhabited

/-- A field as an access names it. -/
structure FieldRef where
  name : String
  declaringType : Ty
  type : Ty
  token : Option Int := none
deriving Repr, Inhabited

/-- The reference by which a body names a method of its own record. -/
def Method.toRef (method : Method) : MethodRef :=
  ⟨method.name, method.declaringType, method.isStatic, method.isOperator, some method.token⟩

def Field.toRef (field : Field) : FieldRef :=
  ⟨field.name, field.declaringType, field.type, some field.token⟩

/-- Whether a call by this reference goes to the given member. Member definitions are compared, so
that the arguments of a generic record do not matter. -/
def MethodRef.targets (reference : MethodRef) (definition : Member) : Bool :=
  match reference.token with
  | some token =>
    token != 0 && token == definition.token && reference.name == definition.name
      && Ty.sameDefinition reference.declaringType definition.declaringType
  | none => false

/-- Whether two references mean the same field of the same instantiated type. -/
def FieldRef.same (left right : FieldRef) : Bool :=
  left.name == right.name && left.token.getD 0 == right.token.getD 0
    && Ty.same left.declaringType right.declaringType

/-- Whether a derived type can override the method. -/
def Method.isOverridable (method : Method) : Bool :=
  !method.isStatic && (method.isVirtual || method.isOverride || method.isAbstract)
    && !method.isSealed

/-- No custom attributes on the method or on what it returns. -/
def Method.hasNoAttributes (method : Method) : Bool :=
  method.attributes.isEmpty && method.returnAttributes.isEmpty

end MemberOrigin
