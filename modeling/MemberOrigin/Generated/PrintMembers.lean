import MemberOrigin.Record.Analysis

/-!
# Generated member printing

The compiler's `PrintMembers` appends, for each printable member in order, a label and the value of
the member to a string builder, and returns whether it printed anything. A label may be cut into
several literals. In a derived record the members of the base come first.
-/
namespace MemberOrigin.Generated

/-- The literals that a list of instructions appends at its start, and the instructions behind. -/
def leadingLiterals (builder : Variable) : List Instr → List String × List Instr
  | [] => ([], [])
  | instr :: rest =>
    match (instr.appended? builder).bind Instr.text? with
    | some literal =>
      let (literals, others) := leadingLiterals builder rest
      (literal :: literals, others)
    | none => ([], instr :: rest)

/-- A call of `PrintMembers` on the receiver with the given builder. -/
def isPrintCall (builder : Variable) (method : MethodRef) : List Instr → Bool
  | [self, argument] =>
    method.name == printMembersName && self.loadsThis && argument.loads builder
  | _ => false

/-- Printing the members of the base, with a separator if there are any. -/
def isBaseCall (builder : Variable) : Instr → Bool
  | .branch (.call kind method args) onTrue .nop =>
    kind != .construct && isPrintCall builder method args
      && (onTrue.unwrap.appended? builder).bind Instr.text? == some ", "
  | _ => false

/-- The receiver of a `ToString` call, through the address of a temporary; other instructions as
they are. -/
def printedOperand? : Instr → Option Instr
  | .call kind method args =>
    if method.name == "ToString" && !method.isStatic then
      match args with
      | [.addressOf value _] => some value
      | [value] => some value
      | _ => none
    else some (.call kind method args)
  | instr => some instr

/-- A call of the getter of a property on the receiver. -/
def isGetterCall (property : Property) : Instr → Bool
  | .call _ method [self] =>
    property.getter.any (fun getter => method.targets getter.toMember) && self.loadsThis
  | _ => false

/-- The value of a property as generated printing appends it. -/
def isPrintedValue (property : Property) (value : Instr) : Bool :=
  (printedOperand? value).any (isGetterCall property)

/-- Members that generated printing prints. -/
def isPrintable (property : Property) : Bool :=
  !property.isStatic && property.name != equalityContractName
    && !property.isExplicitImplementation

/-- The label of a member; the first one has no separator in front. -/
def label (isFirst : Bool) (name : String) : String :=
  (if isFirst then "" else ", ") ++ name ++ " = "

/-- The steps that print these members, and the return of whether any member is printed. -/
def printsMembers (builder : Variable) : Bool → List Property → List Instr → Bool
  | isFirst, [], instructions =>
    (instructions.head?.bind Instr.returned?).any (Instr.isInt (if isFirst then 0 else 1))
  | isFirst, property :: rest, instructions =>
    let (literals, others) := leadingLiterals builder instructions
    !literals.isEmpty && String.join literals == label isFirst property.name
      && match others with
        | value :: others =>
          (value.appended? builder).any (isPrintedValue property)
            && printsMembers builder false rest others
        | [] => false

/-- The instructions behind the printing of the base, which only a derived record has. -/
def behindBase? (isInherited : Bool) (builder : Variable) (instructions : List Instr) :
    Option (List Instr) :=
  if isInherited then
    match instructions with
    | base :: rest => if isBaseCall builder base then some rest else none
    | [] => none
  else some instructions

/-- Goes on unless the run is cancelled, if there is something to print. -/
def checkpointIf {α : Type} (condition : Bool) (next : Query α) : Query α :=
  if condition then .checkpoint next else next

/-- Whether the compiler synthesized this `PrintMembers`. -/
def printMembers (analysis : Analysis) (method : Method) : Query Bool :=
  analysis.expect (method.name == printMembersName)
    ("expected " ++ printMembersName ++ ", got " ++ method.name) <|
  if method.parameters.length == 1 && method.isOverridable && method.hasNoAttributes then
    match analysis.memberOrder with
    | none => return false
    | some order => do
      match ← Query.fetch method with
      | none => return false
      | some body =>
        match body.parameter? 0 with
        | none => return false
        | some builder =>
          if builder.type.isKnown .stringBuilder then
            match behindBase? analysis.isInherited builder body.instructions with
            | none => return false
            | some instructions =>
              let printed := order.filter isPrintable
              -- the fetch above is the last that can be cancelled, so one checkpoint stands for all
              checkpointIf !printed.isEmpty <|
                return printsMembers builder true printed instructions
          else return false
  else return false

end MemberOrigin.Generated
