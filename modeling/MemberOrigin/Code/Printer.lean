import MemberOrigin.Code.Basic
import MemberOrigin.Ty.Format
import MemberOrigin.Text.Quoted
import MemberOrigin.Text.Lines
import MemberOrigin.Number.Basic

/-!
# Listings

The text of instructions. Everything stands on one line but blocks, whose instructions get lines of
their own, shifted by two blanks against the block.
-/
namespace MemberOrigin

def Container.word : Container → String
  | .body => "body"
  | .nested => "nested"

def CallKind.word : CallKind → String
  | .direct => "call"
  | .virtual => "callvirt"
  | .construct => "newobj"

def Comparison.symbol : Comparison → String
  | .equal => "=="
  | .notEqual => "!="
  | .less => "<"
  | .lessOrEqual => "<="
  | .greater => ">"
  | .greaterOrEqual => ">="

/-- The name of a named type without its namespace and arguments; other types in full. -/
def Ty.shortName : Ty → String
  | .named _ name _ _ => name
  | type => type.format

/-- What a call writes in front of its arguments: a constructor comes with its type. -/
def CallKind.head (kind : CallKind) (method : MethodRef) : String :=
  match kind with
  | .construct => "newobj " ++ method.declaringType.shortName ++ "." ++ method.name
  | kind => kind.word ++ " " ++ method.name

namespace Instr

mutual

/-- The text of an instruction whose further lines continue behind `margin`. -/
def print (margin : String) : Instr → String
  | nop => "nop"
  | leave container value => "leave " ++ container.word ++ " (" ++ print margin value ++ ")"
  | block instructions =>
    Text.unlines (["Block \x7b"] ++ printLines (margin ++ "  ") instructions ++ [margin ++ "\x7d"])
  | branch condition onTrue onFalse =>
    "if (" ++ print margin condition ++ ") " ++ print margin onTrue ++
      match onFalse with
      | nop => ""
      | onFalse => " else " ++ print margin onFalse
  | call kind method args =>
    kind.head method ++ "(" ++ ", ".intercalate (printAll margin args) ++ ")"
  | loadField target field => "ldfld " ++ field.name ++ "(" ++ print margin target ++ ")"
  | loadFieldAddress target field => "ldflda " ++ field.name ++ "(" ++ print margin target ++ ")"
  | loadStatic field => "ldsfld " ++ field.name
  | storeField target field value =>
    "stfld " ++ field.name ++ "(" ++ print margin target ++ ", " ++ print margin value ++ ")"
  | storeStatic field value => "stsfld " ++ field.name ++ "(" ++ print margin value ++ ")"
  | load v => "ldloc " ++ v.name
  | store v value => "stloc " ++ v.name ++ "(" ++ print margin value ++ ")"
  | both left right => "logic.and(" ++ print margin left ++ ", " ++ print margin right ++ ")"
  | compare comparison left right =>
    "comp(" ++ print margin left ++ " " ++ comparison.symbol ++ " " ++ print margin right ++ ")"
  | null => "ldnull"
  | text value => "ldstr " ++ Text.quote value
  | int value => "ldc.i4 " ++ Number.intText value
  | addressOf value type => "addressof " ++ type.format ++ "(" ++ print margin value ++ ")"
  | typeToken type => "ldtypetoken " ++ type.format

/-- The texts of the instructions of a list. -/
def printAll (margin : String) : List Instr → List String
  | [] => []
  | instr :: rest => print margin instr :: printAll margin rest

/-- The lines of the instructions of a block. -/
def printLines (margin : String) : List Instr → List String
  | [] => []
  | instr :: rest => (margin ++ print margin instr) :: printLines margin rest

end

end Instr

/-- The text of a body, each instruction starting a line. -/
def Body.print (body : Body) : String :=
  Text.unlines (Instr.printAll "" body.instructions)

end MemberOrigin
