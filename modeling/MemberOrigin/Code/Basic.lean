import MemberOrigin.Member.Basic

/-!
# Method bodies

A decompiled method body: trees of instructions over the variables of the method. Stack slots are
inlined, so that most bodies are one instruction for each statement of the source.
-/
namespace MemberOrigin

inductive VariableKind
  | parameter
  | localSlot
  | stackSlot
deriving Repr, DecidableEq, Inhabited

/-- A variable of a method. Variables are told apart by their number; the receiver of an instance
method is the parameter of index -1. -/
structure Variable where
  id : Nat
  kind : VariableKind
  index : Int
  name : String
  type : Ty
deriving Repr, Inhabited

/-- What an instruction can leave: the whole body or a container inside it. -/
inductive Container
  | body
  | nested
deriving Repr, DecidableEq, Inhabited

inductive CallKind
  | direct
  | virtual
  | construct
deriving Repr, DecidableEq, Inhabited

inductive Comparison
  | equal
  | notEqual
  | less
  | lessOrEqual
  | greater
  | greaterOrEqual
deriving Repr, DecidableEq, Inhabited

/-- An instruction with its operands. -/
inductive Instr
  | nop
  /-- Ends a container with a value; leaving the body returns. -/
  | leave (container : Container) (value : Instr)
  | block (instructions : List Instr)
  /-- A branch without an else part has a `nop` there. -/
  | branch (condition onTrue onFalse : Instr)
  /-- A call; the receiver of an instance method is the first argument. -/
  | call (kind : CallKind) (method : MethodRef) (args : List Instr)
  | loadField (target : Instr) (field : FieldRef)
  | loadFieldAddress (target : Instr) (field : FieldRef)
  | loadStatic (field : FieldRef)
  | storeField (target : Instr) (field : FieldRef) (value : Instr)
  | storeStatic (field : FieldRef) (value : Instr)
  | load (v : Variable)
  | store (v : Variable) (value : Instr)
  /-- The conjunction that does not evaluate its right side if the left one is false. -/
  | both (left right : Instr)
  | compare (comparison : Comparison) (left right : Instr)
  | null
  | text (value : String)
  | int (value : Int)
  /-- The address of a temporary that holds the value. -/
  | addressOf (value : Instr) (type : Ty)
  | typeToken (type : Ty)
deriving Repr, Inhabited

/-- A method body: its instructions in order, and the variables of the method. -/
structure Body where
  instructions : List Instr
  vars : List Variable
deriving Repr, Inhabited

/-- The variable of the receiver. -/
def Variable.isThis (v : Variable) : Bool :=
  v.kind == .parameter && v.index == -1

/-- The declared parameter of the given index, if exactly one variable stands for it. -/
def Body.parameter? (body : Body) (index : Int) : Option Variable :=
  match body.vars.filter fun v => v.kind == .parameter && v.index == index with
  | [v] => some v
  | _ => none

/-- The conjunction of conditions, grouped to the left. -/
def Instr.conjunction (first : Instr) (rest : List Instr) : Instr :=
  rest.foldl .both first

end MemberOrigin
