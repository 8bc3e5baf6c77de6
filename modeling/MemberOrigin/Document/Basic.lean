import MemberOrigin.Number.Basic

/-!
# Documents

The values that a data file holds. An object is a list of entries in the order of the file; its
keys are distinct when it comes from one of the readers.
-/
namespace MemberOrigin

/-- A value of a data file. -/
inductive Document
  | null
  | bool (value : Bool)
  | number (value : Number)
  | string (value : String)
  | list (items : List Document)
  | object (entries : List (String × Document))
deriving Repr, Inhabited

namespace Document

/-- The value of a key among entries. -/
def find? (key : String) : List (String × Document) → Option Document
  | [] => none
  | (name, value) :: rest => if name == key then some value else find? key rest

/-- The value of a key, in an object that has it. -/
def get? (key : String) : Document → Option Document
  | object entries => find? key entries
  | _ => none

def isObject : Document → Bool
  | object _ => true
  | _ => false

/-- Sets a key: in place if the key is there, at the end if it is not. -/
def put (key : String) (value : Document) :
    List (String × Document) → List (String × Document)
  | [] => [(key, value)]
  | (name, old) :: rest =>
    if name == key then (name, value) :: rest else (name, old) :: put key value rest

theorem sizeOf_find?_lt {key : String} {entries : List (String × Document)} {value : Document}
    (found : find? key entries = some value) : sizeOf value < sizeOf entries := by
  induction entries with
  | nil => simp [find?] at found
  | cons entry rest ih =>
    obtain ⟨name, first⟩ := entry
    simp only [find?] at found
    split at found
    · simp only [Option.some.injEq] at found
      rw [found]
      simp only [List.cons.sizeOf_spec, Prod.mk.sizeOf_spec]
      omega
    · have := ih found
      simp only [List.cons.sizeOf_spec]
      omega

/-- The value of a key is smaller than the document. -/
theorem sizeOf_get?_lt {key : String} {document value : Document}
    (found : document.get? key = some value) : sizeOf value < sizeOf document := by
  cases document <;> simp only [get?, reduceCtorEq] at found
  have := sizeOf_find?_lt found
  simp only [object.sizeOf_spec]
  omega

theorem sizeOf_lt_of_mem {items : List Document} {item : Document} (member : item ∈ items) :
    sizeOf item < sizeOf (list items) := by
  have := List.sizeOf_lt_of_mem member
  simp only [list.sizeOf_spec]
  omega

end Document

end MemberOrigin
