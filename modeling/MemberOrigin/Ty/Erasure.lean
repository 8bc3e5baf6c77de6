import MemberOrigin.Ty.Identity
import MemberOrigin.Ty.Known

/-!
# Erasure

What the runtime sees of a type: annotations and the names of tuple elements are gone, the dynamic
type is an object, a native integer is a pointer-sized one, and a tuple is a value tuple. A value
tuple holds seven elements; the others are in a value tuple of their own, as its eighth argument.
-/
namespace MemberOrigin.Ty

/-- The number of elements that a value tuple holds itself. -/
def maxTupleArity : Nat := 7

/-- The value tuple type over these elements. -/
def valueTuple (elements : List Ty) : Ty :=
  if elements.length ≤ maxTupleArity then .named "System" "ValueTuple" elements false
  else
    .named "System" "ValueTuple"
      (elements.take maxTupleArity ++ [valueTuple (elements.drop maxTupleArity)]) false
termination_by elements.length
decreasing_by
  simp only [List.length_drop, maxTupleArity] at *
  omega

theorem valueTuple_of_le {elements : List Ty} (few : elements.length ≤ maxTupleArity) :
    valueTuple elements = .named "System" "ValueTuple" elements false := by
  rw [valueTuple, if_pos few]

theorem valueTuple_of_lt {elements : List Ty} (many : maxTupleArity < elements.length) :
    valueTuple elements =
      .named "System" "ValueTuple"
        (elements.take maxTupleArity ++ [valueTuple (elements.drop maxTupleArity)]) false := by
  rw [valueTuple, if_neg (Nat.not_le.mpr many)]

mutual

/-- The runtime type of a type. -/
def erase : Ty → Ty
  | .named ns name args _ => .named ns name (eraseAll args) false
  | .parameter owner index name _ => .parameter owner index name false
  | .array element rank _ => .array (erase element) rank false
  | .reference element => .reference (erase element)
  | .tuple elements _ => valueTuple (eraseAll elements)
  | .nativeInteger unsigned => ofKnown (if unsigned then .uintPtr else .intPtr)
  | .dynamic _ => ofKnown .object

def eraseAll : List Ty → List Ty
  | [] => []
  | type :: rest => erase type :: eraseAll rest

end

theorem eraseAll_eq_map (types : List Ty) : eraseAll types = types.map erase := by
  induction types with
  | nil => rfl
  | cons type rest ih => simp [eraseAll, ih]

/-- Whether two types are the same at run time. -/
def sameErased (left right : Ty) : Bool :=
  same (erase left) (erase right)

end MemberOrigin.Ty
