import MemberOrigin.Record.Analysis

/-!
# Execution of printing bodies

What a body does that builds a text: it makes string builders, appends to them, and calls methods of
its record on the receiver. What such a method returns is not computed; it stands for itself, and so
does its text. An object that is made stands for itself as well: it is nothing that a method of the
record returns. An instruction that building a text does not need has no meaning here.
-/
namespace MemberOrigin

/-- A part of a text: a character, the text of what a method returns on the receiver, or the text of
an object that is made by a call. -/
inductive Piece
  | char (c : Char)
  | value (method : Method)
  | object (maker : MethodRef)

/-- The pieces of a literal. -/
def written (text : String) : List Piece :=
  text.toList.map .char

/-- What variables hold and instructions yield. -/
inductive Datum
  | nothing
  | receiver
  /-- The string builder that was made at this position. -/
  | builder (position : Nat)
  | text (pieces : List Piece)
  /-- What the method returns on the receiver. -/
  | value (method : Method)
  /-- A new object of another kind than a string builder, by the call that made it. -/
  | object (maker : MethodRef)
  | int (n : Int)

/-- What is appended for a datum. -/
def Datum.printed? : Datum → Option (List Piece)
  | text pieces => some pieces
  | value method => some [.value method]
  | object maker => some [.object maker]
  | _ => none

/-- The texts of all string builders, in the order in which they were made. -/
abbrev Builders := List (List Piece)

/-- The data of variables, by the number of the variable, and the string builders. -/
structure Memory where
  values : Nat → Option Datum
  builders : Builders

namespace Memory

def assign (memory : Memory) (v : Variable) (datum : Datum) : Memory :=
  { memory with values := fun id => if id = v.id then some datum else memory.values id }

def append (memory : Memory) (position : Nat) (pieces : List Piece) : Memory :=
  { memory with builders := memory.builders.modify position (· ++ pieces) }

end Memory

/-- What an instruction does: it goes on with a datum, or the body returns one. -/
inductive Effect
  | goesOn (datum : Datum)
  | returns (datum : Datum)

@[simp] def Effect.datum? : Effect → Option Datum
  | goesOn datum => some datum
  | returns _ => none

/-- What a body can call: the methods of its record, and the printing of the members to a string
builder. -/
structure Callees where
  methods : List Method
  printMembers : Nat → Builders → Option (Datum × Builders)

/-- What a call gives. Making an object runs no getter: it gives a string builder, or an object that
stands for itself. The other kinds of calls do not differ here. -/
@[simp] def Callees.invoke (callees : Callees) (kind : CallKind) (method : MethodRef) (args : List Datum)
    (builders : Builders) : Option (Datum × Builders) :=
  match kind, args with
  | .construct, args =>
    if args.isEmpty && method.declaringType.isKnown .stringBuilder then
      some (.builder builders.length, builders ++ [[]])
    else some (.object method, builders)
  | _, [.receiver] =>
    (callees.methods.find? fun target => method.targets target.toMember).map fun target =>
      (.value target, builders)
  | _, [.receiver, .builder position] =>
    if method.name == printMembersName then callees.printMembers position builders else none
  | _, [.value target] =>
    if method.name == "ToString" && !method.isStatic then some (.text [.value target], builders)
    else none
  | _, [.object maker] =>
    if method.name == "ToString" && !method.isStatic then some (.text [.object maker], builders)
    else none
  | _, [.builder position] =>
    if method.name == "ToString" then builders[position]?.map fun pieces => (.text pieces, builders)
    else none
  | _, [.builder position, datum] =>
    if method.name == "Append" && method.declaringType.isKnown .stringBuilder then
      datum.printed?.map fun pieces =>
        (.builder position, builders.modify position (· ++ pieces))
    else none
  | _, _ => none

namespace Instr

mutual

/-- Executes an instruction. -/
def execute (callees : Callees) : Instr → Memory → Option (Effect × Memory)
  | nop, memory => some (.goesOn .nothing, memory)
  | leave .body value, memory => do
    let (effect, memory) ← execute callees value memory
    return (.returns (← effect.datum?), memory)
  | block instructions, memory => executeAll callees instructions memory
  | branch condition onTrue onFalse, memory => do
    let (effect, memory) ← execute callees condition memory
    match effect with
    | .goesOn (.int n) =>
      if n = 0 then execute callees onFalse memory else execute callees onTrue memory
    | _ => none
  | call kind method args, memory => do
    let (data, memory) ← evaluate callees args memory
    let (datum, builders) ← callees.invoke kind method data memory.builders
    return (.goesOn datum, { memory with builders })
  | load v, memory => do return (.goesOn (← memory.values v.id), memory)
  | store v value, memory => do
    let (effect, memory) ← execute callees value memory
    return (.goesOn .nothing, memory.assign v (← effect.datum?))
  | text value, memory => some (.goesOn (.text (written value)), memory)
  | int n, memory => some (.goesOn (.int n), memory)
  | addressOf value _, memory => execute callees value memory
  | _, _ => none

/-- Executes instructions in order, up to the first return. -/
def executeAll (callees : Callees) : List Instr → Memory → Option (Effect × Memory)
  | [], memory => some (.goesOn .nothing, memory)
  | instr :: rest, memory => do
    let (effect, memory) ← execute callees instr memory
    match effect with
    | .goesOn _ => executeAll callees rest memory
    | .returns datum => some (.returns datum, memory)

/-- The data of arguments, from left to right. -/
def evaluate (callees : Callees) : List Instr → Memory → Option (List Datum × Memory)
  | [], memory => some ([], memory)
  | instr :: rest, memory => do
    let (effect, memory) ← execute callees instr memory
    let datum ← effect.datum?
    let (data, memory) ← evaluate callees rest memory
    return (datum :: data, memory)

end

attribute [simp] execute executeAll evaluate

end Instr

namespace Body

/-- What the variables of a body hold at its start: the receiver and the arguments of a call. -/
def entry (body : Body) (arguments : List Datum) (id : Nat) : Option Datum :=
  (body.vars.find? fun v => v.id == id).bind fun v =>
    if v.isThis then some .receiver
    else if v.kind == .parameter then arguments[v.index.toNat]?
    else none

/-- What a call of a body returns, and the string builders behind it. -/
def run (body : Body) (callees : Callees) (arguments : List Datum) (builders : Builders) :
    Option (Datum × Builders) := do
  let (effect, memory) ← Instr.executeAll callees body.instructions ⟨body.entry arguments, builders⟩
  match effect with
  | .returns datum => return (datum, memory.builders)
  | .goesOn _ => none

end Body

/-! ### Steps -/

theorem written_append (text other : String) :
    written (text ++ other) = written text ++ written other := by
  simp [written]

namespace Memory

@[simp] theorem append_values (memory : Memory) (position : Nat) (pieces : List Piece) :
    (memory.append position pieces).values = memory.values := rfl

@[simp] theorem append_append (memory : Memory) (position : Nat) (pieces others : List Piece) :
    (memory.append position pieces).append position others =
      memory.append position (pieces ++ others) := by
  simp [append, List.modify_modify_eq, Function.comp_def]

@[simp] theorem append_nil (memory : Memory) (position : Nat) :
    memory.append position [] = memory := by
  have same : (fun pieces : List Piece => pieces ++ []) = id := funext List.append_nil
  rw [append, same, List.modify_id]

end Memory

namespace Instr

variable {callees : Callees} {memory after : Memory}

theorem executeAll_cons {instr : Instr} {datum : Datum}
    (goesOn : execute callees instr memory = some (.goesOn datum, after)) (rest : List Instr) :
    executeAll callees (instr :: rest) memory = executeAll callees rest after := by
  simp [executeAll, goesOn]

theorem execute_branch {condition : Instr} {n : Int}
    (decides : execute callees condition memory = some (.goesOn (.int n), after))
    (onTrue onFalse : Instr) :
    execute callees (branch condition onTrue onFalse) memory =
      execute callees (if n = 0 then onFalse else onTrue) after := by
  rw [execute, decides]
  by_cases zero : n = 0 <;> simp [zero]

end Instr

end MemberOrigin
