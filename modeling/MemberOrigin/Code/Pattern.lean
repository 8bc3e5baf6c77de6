import MemberOrigin.Code.Basic
import MemberOrigin.Ty.Erasure

/-!
# Instruction patterns

What the recognition of generated bodies looks for in a single instruction. A pattern gives the
operands of an instruction of its form, and `none` for any other.
-/
namespace MemberOrigin.Instr

def isNop : Instr → Bool
  | nop => true
  | _ => false

/-- The value that the body returns; `nop` if it returns nothing. -/
def returned? : Instr → Option Instr
  | leave .body value => some value
  | _ => none

def loaded? : Instr → Option Variable
  | load v => some v
  | _ => none

/-- Whether the instruction loads the given variable. -/
def loads (v : Variable) : Instr → Bool
  | load w => w.id == v.id
  | _ => false

def loadsThis : Instr → Bool
  | load v => v.isThis
  | _ => false

def stored? : Instr → Option (Variable × Instr)
  | store v value => some (v, value)
  | _ => none

/-- The target and the field of a field access. -/
def fieldLoad? : Instr → Option (Instr × FieldRef)
  | loadField target field => some (target, field)
  | _ => none

def staticLoad? : Instr → Option FieldRef
  | loadStatic field => some field
  | _ => none

/-- The target, the field and the value of an assignment to a field. -/
def fieldStore? : Instr → Option (Instr × FieldRef × Instr)
  | storeField target field value => some (target, field, value)
  | _ => none

def staticStore? : Instr → Option (FieldRef × Instr)
  | storeStatic field value => some (field, value)
  | _ => none

def text? : Instr → Option String
  | text value => some value
  | _ => none

def isInt (value : Int) : Instr → Bool
  | int n => n == value
  | _ => false

def isNull : Instr → Bool
  | null => true
  | _ => false

/-- The condition and the branch of an `if` without an else part. -/
def branch? : Instr → Option (Instr × Instr)
  | branch condition onTrue nop => some (condition, onTrue)
  | _ => none

def both? : Instr → Option (Instr × Instr)
  | both left right => some (left, right)
  | _ => none

/-- What is compared to be not null. -/
def notNull? : Instr → Option Instr
  | compare .notEqual left null => some left
  | _ => none

def isCall : Instr → Bool
  | call _ _ _ => true
  | _ => false

/-- A block of one instruction stands for that instruction. -/
def unwrap : Instr → Instr
  | block [only] => only
  | instr => instr

/-- The conditions of a conjunction from left to right; any other instruction is its own only
condition. -/
def conjuncts : Instr → List Instr
  | both left right => conjuncts left ++ conjuncts right
  | instr => [instr]

/-- The target of an access to the given field. -/
def fieldLoadOf? (field : FieldRef) : Instr → Option Instr
  | loadField target accessed => if accessed.same field then some target else none
  | _ => none

/-- The value that is appended to the string builder in a variable. -/
def appended? (builder : Variable) : Instr → Option Instr
  | call .virtual method [receiver, value] =>
    if method.name == "Append" && method.declaringType.isKnown .stringBuilder
      && receiver.loads builder
    then some value else none
  | _ => none

/-- Whose equality contract is read. -/
def contractTarget? : Instr → Option Instr
  | call .virtual method [target] =>
    if method.name == "get_EqualityContract" then some target else none
  | _ => none

/-- Whether the instruction is the default equality comparer of a type, or of one that is the same
at run time. -/
def isDefaultComparer (type : Ty) : Instr → Bool
  | call .direct method [] =>
    method.name == "get_Default" && method.isStatic
      && method.declaringType.isKnown .equalityComparer
      && match method.declaringType with
        | .named _ _ (compared :: _) _ => compared.sameErased type
        | _ => false
  | _ => false

/-- The type whose runtime type object is fetched. -/
def typeOf? : Instr → Option Ty
  | call .direct method [typeToken type] =>
    if method.name == "GetTypeFromHandle" && method.declaringType.isKnown .type
    then some type else none
  | _ => none

end MemberOrigin.Instr
