import MemberOrigin.Generated.PrintMembers

/-!
# Generated text of a record

The compiler's `ToString` appends the name of the record, an opening brace, the members if there
are any, and a closing brace to a new string builder, and returns its text.
-/
namespace MemberOrigin.Generated

/-- Whether an instruction appends exactly this literal. -/
def appendsLiteral (builder : Variable) (literal : String) (instr : Instr) : Bool :=
  (instr.appended? builder).bind Instr.text? == some literal

/-- Printing the members, with a blank behind them if there are any. -/
def isMembersStep (builder : Variable) : Instr × Instr → Bool
  | (.call .virtual method args, onTrue) =>
    isPrintCall builder method args && appendsLiteral builder " " onTrue.unwrap
  | _ => false

/-- A new string builder is made without arguments. -/
def isNewBuilder : Instr → Bool
  | .call .construct method [] => method.declaringType.isKnown .stringBuilder
  | _ => false

/-- The text of the builder. -/
def isBuilderText (builder : Variable) : Instr → Bool
  | .call .virtual method [receiver] => method.name == "ToString" && receiver.loads builder
  | _ => false

/-- The closing brace and the return of the text. -/
def endsText (builder : Variable) : List Instr → Bool
  | close :: last :: _ =>
    appendsLiteral builder "\x7d" close && last.returned?.any (isBuilderText builder)
  | _ => false

/-- What follows the opening brace: the members step, if it is there, and the end. -/
def printsRest (builder : Variable) : List Instr → Bool
  | [] => false
  | instr :: rest =>
    match instr.branch? with
    | some step => isMembersStep builder step && endsText builder rest
    | none => endsText builder (instr :: rest)

/-- The steps of a generated `ToString` of a record with this name. -/
def printsRecord (name : String) : List Instr → Bool
  | .store builder value :: head :: opening :: rest =>
    isNewBuilder value && appendsLiteral builder name head
      && appendsLiteral builder " \x7b " opening && printsRest builder rest
  | _ => false

/-- Whether the compiler synthesized this `ToString`. -/
def toString (analysis : Analysis) (method : Method) : Query Bool :=
  analysis.expect (method.name == "ToString" && method.parameters.isEmpty)
    ("expected ToString(), got " ++ method.name ++ "/"
      ++ ToString.toString method.parameters.length) <|
  if method.isOverride && !method.isSealed && method.hasNoAttributes then do
    let body? ← Query.fetch method
    return body?.any fun body => printsRecord analysis.record.name body.instructions
  else return false

end MemberOrigin.Generated
