import MemberOrigin.Dump.Members
import MemberOrigin.Code.Printer

/-!
# Reading bodies

The body of a method from its node: the variables, which are the receiver, the parameters and the
locals in this order, and the instructions over them. An instruction is an object with an operation
and operands; an operation without operands may stand alone as its name.
-/
namespace MemberOrigin

/-- The operations of instructions. -/
inductive Operation
  | nop
  | null
  | this
  | leave
  | block
  | branch
  | call (kind : CallKind)
  | loadField
  | loadFieldAddress
  | loadStatic
  | storeField
  | storeStatic
  | load
  | store
  | both
  | compare
  | text
  | int
  | addressOf
  | typeToken
deriving Repr, DecidableEq, Inhabited

namespace Operation

/-- The names of the operations. -/
def names : List (String × Operation) :=
  [("nop", nop), ("ldnull", null), ("ldthis", this), ("leave", leave), ("block", block),
    ("if", branch), ("call", call .direct), ("callvirt", call .virtual),
    ("newobj", call .construct), ("ldfld", loadField), ("ldflda", loadFieldAddress),
    ("ldsfld", loadStatic), ("stfld", storeField), ("stsfld", storeStatic), ("ldloc", load),
    ("stloc", store), ("logic.and", both), ("comp", compare), ("ldstr", text), ("ldc.i4", int),
    ("addressof", addressOf), ("ldtypetoken", typeToken)]

def ofName? (name : String) : Option Operation :=
  names.lookup name

end Operation

def Comparison.all : List Comparison :=
  [equal, notEqual, less, lessOrEqual, greater, greaterOrEqual]

def Comparison.ofSymbol? (symbol : String) : Option Comparison :=
  all.find? (·.symbol == symbol)

/-- What the instructions of a body may refer to. -/
structure BodyScope extends DumpScope where
  vars : List Variable
deriving Inhabited

namespace Dump

open Reading

/-- The texts in front of and behind the first double colon. -/
def cutAtColons : List Char → Option (List Char × List Char)
  | [] => none
  | ':' :: ':' :: rest => some ([], rest)
  | c :: rest => (cutAtColons rest).map fun (front, back) => (c :: front, back)

/-- The texts in front of and behind the last double colon. -/
def cutAtLastColons (text : List Char) : Option (List Char × List Char) :=
  (cutAtColons text.reverse).map fun (back, front) => (front.reverse, back.reverse)

/-- Whether a reference is marked as static, and the text behind the mark. -/
def dropStatic (text : List Char) : Bool × List Char :=
  if "static ".toList.isPrefixOf text then (true, text.drop "static ".length) else (false, text)

/-- Reads a reference to a method: the name of a method of the record, or a type and a name for
any other method. -/
def readMethodRef (scope : DumpScope) (text : String) (path : DocPath) : Reading MethodRef :=
  match cutAtLastColons text.toList with
  | none => (scope.method text path).map Method.toRef
  | some (front, back) =>
    let name := String.ofList back
    if name.isEmpty then refuse .invalidInstruction path (.namelessMethod text)
    else do
      let (isStatic, typeText) := dropStatic front
      let declaringType ← type (String.ofList typeText) path scope.typeParameters
      let isOperator := isOperatorName name
      return { name, declaringType, isStatic := isStatic || isOperator, isOperator }

/-- Reads a reference to a field: the name of a field of the record, or an object for any other
field. -/
def readFieldRef (scope : DumpScope) (node : Document) (path : DocPath) : Reading FieldRef :=
  let path := path.key "field"
  match node.get? "field" with
  | some (.string name) =>
    match scope.field? name with
    | some field => .ok field.toRef
    | none => refuse .unknownMember path (.unknownField name)
  | value => do
    let node ← object (value.getD .null) path .invalidInstruction "Field reference"
    let name ← string node "name" path .invalidInstruction
    let declaringText ← string node "declaringType" path .invalidInstruction
    let declaringType ← type declaringText (path.key "declaringType") scope.typeParameters
    let type ← readType node path .invalidInstruction scope
    return { name, declaringType, type }

/-- The variable of a name. -/
def findVariable (scope : BodyScope) (name : String) (path : DocPath) : Reading Variable :=
  match scope.vars.find? fun v => v.name == name with
  | some v => .ok v
  | none =>
    refuse .unknownVariable path (.unknownVariable name (scope.vars.map fun v => v.name))

def readVariable (scope : BodyScope) (node : Document) (path : DocPath) : Reading Variable := do
  let name ← string node "var" path .invalidInstruction
  findVariable scope name (path.key "var")

/-- Reads a type that an instruction names. -/
def readInstrType (scope : BodyScope) (node : Document) (path : DocPath) : Reading Ty :=
  readType node path .invalidInstruction scope.toDumpScope

/-- Reads the container that an instruction leaves; the body by default. -/
def readContainer (node : Document) (path : DocPath) : Reading Container := do
  match (← string? node "container" path .invalidInstruction).getD "body" with
  | "body" => return .body
  | "nested" => return .nested
  | other => refuse .invalidInstruction (path.key "container") (.badContainer other)

def readComparison (node : Document) (path : DocPath) : Reading Comparison :=
  let value? := node.get? "operator"
  let read? := match value? with
    | some (.string symbol) => Comparison.ofSymbol? symbol
    | _ => none
  match read? with
  | some comparison => .ok comparison
  | none =>
    refuse .invalidInstruction (path.key "operator")
      (.badComparison ((value?.map Document.toJson).getD "undefined"))

/-- Reads an instruction that has no operands. -/
def readBare (scope : BodyScope) (operation : String) (path : DocPath) : Reading Instr :=
  match Operation.ofName? operation with
  | some .nop => .ok .nop
  | some .null => .ok .null
  | some .this => (findVariable scope "this" path).map .load
  | _ => refuse .invalidInstruction path (.needsOperands operation)

/-- A reader for the nodes below a node. -/
abbrev Below (node : Document) (α : Type) :=
  (value : Document) → sizeOf value < sizeOf node → DocPath → Reading α

/-- Reads the operand under a key. -/
def readOperand (node : Document) (key : String) (path : DocPath) (read : Below node Instr) :
    Reading Instr :=
  match found : node.get? key with
  | some value => read value (Document.sizeOf_get?_lt found) (path.key key)
  | none => refuse .invalidInstruction (path.key key) (.missingOperand key)

/-- Reads the operand under a key; without one it is `nop`. -/
def readOptional (node : Document) (key : String) (path : DocPath) (read : Below node Instr) :
    Reading Instr :=
  if (node.get? key).isSome then readOperand node key path read else .ok .nop

theorem sizeOf_item_lt {node item : Document} {key : String} {items : List Document}
    (found : node.get? key = some (.list items)) (member : item ∈ items) :
    sizeOf item < sizeOf node :=
  Nat.lt_trans (Document.sizeOf_lt_of_mem member) (Document.sizeOf_get?_lt found)

/-- Reads the operands in the list under a key. -/
def readOperands (node : Document) (key : String) (path : DocPath) (read : Below node Instr) :
    Reading (List Instr) :=
  match found : node.get? key with
  | none | some .null => .ok []
  | some (.list items) =>
    each (fun position item =>
      read item.1 (sizeOf_item_lt found item.2) ((path.key key).index position)) 0 items.attach
  | some _ => refuse .invalidInstruction (path.key key) (.notList key)

/-- Reads an instruction with its operands. -/
def readInstr (scope : BodyScope) (value : Document) (path : DocPath) : Reading Instr :=
  let below : Below value Instr := fun node _ path => readInstr scope node path
  match value with
  | .string operation => readBare scope operation path
  | .object _ => do
    let name ← string value "op" path .invalidInstruction
    match Operation.ofName? name with
    | none => refuse .invalidInstruction (path.key "op") (.unknownInstruction name)
    | some .nop | some .null | some .this => readBare scope name path
    | some .leave =>
      let container ← readContainer value path
      return .leave container (← readOptional value "value" path below)
    | some .block => return .block (← readOperands value "instructions" path below)
    | some .branch =>
      let condition ← readOperand value "condition" path below
      let onTrue ← readOperand value "then" path below
      return .branch condition onTrue (← readOptional value "else" path below)
    | some (.call kind) =>
      let text ← string value "method" path .invalidInstruction
      let method ← readMethodRef scope.toDumpScope text (path.key "method")
      return .call kind method (← readOperands value "args" path below)
    | some .loadField =>
      let field ← readFieldRef scope.toDumpScope value path
      return .loadField (← readOperand value "target" path below) field
    | some .loadFieldAddress =>
      let field ← readFieldRef scope.toDumpScope value path
      return .loadFieldAddress (← readOperand value "target" path below) field
    | some .loadStatic => return .loadStatic (← readFieldRef scope.toDumpScope value path)
    | some .storeField =>
      let target ← readOperand value "target" path below
      let field ← readFieldRef scope.toDumpScope value path
      return .storeField target field (← readOperand value "value" path below)
    | some .storeStatic =>
      let field ← readFieldRef scope.toDumpScope value path
      return .storeStatic field (← readOperand value "value" path below)
    | some .load => return .load (← readVariable scope value path)
    | some .store =>
      let v ← readVariable scope value path
      return .store v (← readOperand value "value" path below)
    | some .both =>
      match ← readOperands value "operands" path below with
      | first :: second :: rest => return Instr.conjunction first (second :: rest)
      | _ => refuse .invalidInstruction (path.key "operands") .fewOperands
    | some .compare =>
      let comparison ← readComparison value path
      let left ← readOperand value "left" path below
      return .compare comparison left (← readOperand value "right" path below)
    | some .text =>
      match value.get? "value" with
      | some (.string text) => return .text text
      | _ => refuse .invalidInstruction (path.key "value") .needsText
    | some .int =>
      match value.get? "value" with
      | some (.number (.integer n)) => return .int n
      | _ => refuse .invalidInstruction (path.key "value") .needsInteger
    | some .addressOf =>
      let operand ← readOperand value "value" path below
      return .addressOf operand (← readInstrType scope value path)
    | some .typeToken => return .typeToken (← readInstrType scope value path)
  | _ => refuse .invalidInstruction path .badInstruction
termination_by sizeOf value

/-- Adds a variable, whose name has to be new. -/
def declare (vars : List Variable) (kind : VariableKind) (index : Int) (name : String)
    (type : Ty) (path : DocPath) : Reading (List Variable) :=
  if vars.any fun v => v.name == name then
    refuse .duplicateDeclaration path (.duplicateVariable name)
  else .ok (vars ++ [{ id := vars.length, kind, index, name, type }])

/-- Declares the parameters of a method. -/
def declareParameters (path : DocPath) :
    List Variable → Nat → List Parameter → Reading (List Variable)
  | vars, _, [] => .ok vars
  | vars, position, parameter :: rest => do
    let vars ← declare vars .parameter position parameter.name parameter.type
      ((path.key "parameters").index position)
    declareParameters path vars (position + 1) rest

/-- Reads and declares the locals of a body. -/
def declareLocals (scope : DumpScope) (path : DocPath) :
    List Variable → Nat → List Document → Reading (List Variable)
  | vars, _, [] => .ok vars
  | vars, position, item :: rest => do
    let itemPath := (path.key "locals").index position
    let node ← object item itemPath .invalidBody "Local"
    let name ← string node "name" itemPath .invalidBody
    let type ← readType node itemPath .invalidBody scope
    let vars ← declare vars .localSlot position name type itemPath
    declareLocals scope path vars (position + 1) rest

/-- The receiver of an instance method. -/
def receiver (scope : DumpScope) (method : Method) : List Variable :=
  if method.isStatic then []
  else [{ id := 0, kind := .parameter, index := -1, name := "this", type := scope.selfType }]

/-- Declares the variables of a method: its receiver, its parameters and the locals of its body. -/
def declareVariables (scope : DumpScope) (method : Method) (node : Document) (path : DocPath) :
    Reading (List Variable) := do
  let vars ← declareParameters path (receiver scope method) 0 method.parameters
  declareLocals scope path vars 0 (← list node "locals" path .invalidBody)

/-- Reads the body of a method. -/
def readBody (scope : DumpScope) (method : Method) (value : Document) (path : DocPath) :
    Reading Body := do
  let node ← object value path .invalidBody "Method body"
  let vars ← declareVariables scope method node path
  let items ← list node "instructions" path .invalidBody
  let instructions ← each (fun position item =>
    readInstr { scope with vars } item ((path.key "instructions").index position)) 0 items
  if instructions.isEmpty then
    refuse .invalidBody (path.key "instructions") .emptyBody
  else return { instructions, vars }

end Dump

end MemberOrigin
