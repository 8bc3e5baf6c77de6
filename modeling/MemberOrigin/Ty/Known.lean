import MemberOrigin.Ty.Basic

/-!
# Well-known types

The types that the recognition of generated members refers to by name. A type is well-known by its
name and its number of arguments; annotations and the arguments themselves do not matter.
-/
namespace MemberOrigin

/-- A type definition of the runtime library. -/
inductive KnownType
  | object
  | type
  | string
  | boolean
  | int32
  | intPtr
  | uintPtr
  | stringBuilder
  | equalityComparer
  | compilerGenerated
deriving Repr, DecidableEq, Inhabited

namespace KnownType

def ns : KnownType → String
  | .stringBuilder => "System.Text"
  | .equalityComparer => "System.Collections.Generic"
  | .compilerGenerated => "System.Runtime.CompilerServices"
  | _ => "System"

def name : KnownType → String
  | .object => "Object"
  | .type => "Type"
  | .string => "String"
  | .boolean => "Boolean"
  | .int32 => "Int32"
  | .intPtr => "IntPtr"
  | .uintPtr => "UIntPtr"
  | .stringBuilder => "StringBuilder"
  | .equalityComparer => "EqualityComparer"
  | .compilerGenerated => "CompilerGeneratedAttribute"

/-- The number of type arguments. -/
def arity : KnownType → Nat
  | .equalityComparer => 1
  | _ => 0

end KnownType

namespace Ty

/-- Whether a type is an instance of the well-known definition. -/
def isKnown (known : KnownType) : Ty → Bool
  | .named ns name args _ => ns == known.ns && name == known.name && args.length == known.arity
  | _ => false

/-- The reference to a well-known type without arguments. -/
def ofKnown (known : KnownType) : Ty :=
  .named known.ns known.name [] false

end Ty

end MemberOrigin
