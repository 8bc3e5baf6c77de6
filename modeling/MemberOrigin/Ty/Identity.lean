import MemberOrigin.Ty.Basic

/-!
# Type identity

Two types are the same if they agree in everything but the written names of type parameters.
Names of tuple elements count, and a missing name differs from an empty one.
-/
namespace MemberOrigin.Ty

/-- The same names on the first `n` elements of two tuples. -/
def sameNames (n : Nat) (left right : List (Option String)) : Bool :=
  (List.range n).all fun i => elementName left i == elementName right i

theorem sameNames_iff {n : Nat} {left right : List (Option String)} :
    sameNames n left right = true ↔ namesOf n left = namesOf n right := by
  simp [sameNames, namesOf]

mutual

/-- Structural identity of types. -/
def same : Ty → Ty → Bool
  | .named ns name args nullable, .named ns' name' args' nullable' =>
    ns == ns' && name == name' && nullable == nullable' && sameAll args args'
  | .parameter owner index _ nullable, .parameter owner' index' _ nullable' =>
    owner == owner' && index == index' && nullable == nullable'
  | .array element rank nullable, .array element' rank' nullable' =>
    rank == rank' && nullable == nullable' && same element element'
  | .reference element, .reference element' => same element element'
  | .tuple elements names, .tuple elements' names' =>
    sameAll elements elements' && sameNames elements.length names names'
  | .nativeInteger unsigned, .nativeInteger unsigned' => unsigned == unsigned'
  | .dynamic nullable, .dynamic nullable' => nullable == nullable'
  | _, _ => false

/-- Lists of the same length whose types are the same one by one. -/
def sameAll : List Ty → List Ty → Bool
  | [], [] => true
  | type :: rest, type' :: rest' => same type type' && sameAll rest rest'
  | _, _ => false

end

/-- The same definition of a named type, whatever the arguments are. -/
def sameDefinition : Ty → Ty → Bool
  | .named ns name args _, .named ns' name' args' _ =>
    ns == ns' && name == name' && args.length == args'.length
  | _, _ => false

end MemberOrigin.Ty
