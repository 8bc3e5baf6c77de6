/-!
# Types of the runtime

The types that members and instructions mention: named types with their arguments, type
parameters, arrays, references, tuples, native integers and the dynamic type. A question mark on a
reference type is an annotation of the type, not a type of its own.
-/
namespace MemberOrigin

/-- Who declares a type parameter. -/
inductive Owner
  | type
  | method
deriving Repr, DecidableEq, Inhabited

/-- A type as a signature writes it. -/
inductive Ty
  /-- A class, struct, interface or enum, instantiated over its arguments. -/
  | named (ns name : String) (args : List Ty) (nullable : Bool)
  /-- A type parameter, which its position identifies; the name is how it was written. -/
  | parameter (owner : Owner) (index : Int) (name : String) (nullable : Bool)
  | array (element : Ty) (rank : Int) (nullable : Bool)
  | reference (element : Ty)
  /-- A tuple; an element without an entry in `names` has no name. -/
  | tuple (elements : List Ty) (names : List (Option String))
  | nativeInteger (unsigned : Bool)
  | dynamic (nullable : Bool)
deriving Repr, Inhabited

namespace Ty

/-- A type of the `System` namespace without arguments. -/
def system (name : String) : Ty :=
  .named "System" name [] false

/-- Adds the annotation `?`; tuples, references and native integers cannot carry one. -/
def annotate? : Ty → Option Ty
  | .named ns name args _ => some (.named ns name args true)
  | .parameter owner index name _ => some (.parameter owner index name true)
  | .array element rank _ => some (.array element rank true)
  | .dynamic _ => some (.dynamic true)
  | .reference _ | .tuple _ _ | .nativeInteger _ => none

/-- The name of a tuple element, by position. -/
def elementName (names : List (Option String)) (i : Nat) : Option String :=
  names[i]?.join

/-- The names of the elements of a tuple, one for each element. -/
def namesOf (n : Nat) (names : List (Option String)) : List (Option String) :=
  (List.range n).map (elementName names)

/-- Induction over types, with a hypothesis for every argument and every element. -/
@[elab_as_elim]
theorem induction {motive : Ty → Prop}
    (named : ∀ ns name args nullable, (∀ arg ∈ args, motive arg) →
      motive (.named ns name args nullable))
    (parameter : ∀ owner index name nullable, motive (.parameter owner index name nullable))
    (array : ∀ element rank nullable, motive element → motive (.array element rank nullable))
    (reference : ∀ element, motive element → motive (.reference element))
    (tuple : ∀ elements names, (∀ element ∈ elements, motive element) →
      motive (.tuple elements names))
    (nativeInteger : ∀ unsigned, motive (.nativeInteger unsigned))
    (dynamic : ∀ nullable, motive (.dynamic nullable)) (type : Ty) : motive type := by
  match type with
  | .named ns name args nullable =>
    exact named ns name args nullable fun arg member =>
      induction named parameter array reference tuple nativeInteger dynamic arg
  | .parameter owner index name nullable => exact parameter owner index name nullable
  | .array element rank nullable =>
    exact array element rank nullable
      (induction named parameter array reference tuple nativeInteger dynamic element)
  | .reference element =>
    exact reference element
      (induction named parameter array reference tuple nativeInteger dynamic element)
  | .tuple elements names =>
    exact tuple elements names fun element member =>
      induction named parameter array reference tuple nativeInteger dynamic element
  | .nativeInteger unsigned => exact nativeInteger unsigned
  | .dynamic nullable => exact dynamic nullable
termination_by sizeOf type
decreasing_by
  · have smaller := List.sizeOf_lt_of_mem member
    rw [Ty.named.sizeOf_spec]
    omega
  · rw [Ty.array.sizeOf_spec]
    omega
  · rw [Ty.reference.sizeOf_spec]
    omega
  · have smaller := List.sizeOf_lt_of_mem member
    rw [Ty.tuple.sizeOf_spec]
    omega

end Ty

/-- The type parameters that a type string may name. -/
structure TypeScope where
  typeParameters : List String := []
  methodTypeParameters : List String := []
deriving Repr, Inhabited

end MemberOrigin
