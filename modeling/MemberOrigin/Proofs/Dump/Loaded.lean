import MemberOrigin.Proofs.Dump.WellScoped
import MemberOrigin.Proofs.Record.AutoProperty

/-!
# Loaded dumps

What the analysis of a loaded record relies on: fields and properties are told apart by name and
methods by token, methods are those of the record, accessors are among them, and a body has the
variables of its method.
-/
namespace MemberOrigin.Dump

section Loaded

variable {fileName : String} {document : Document} {dump : RecordDump}
  (loaded : load fileName document = .ok dump)

include loaded

theorem fieldNames_of_load : (dump.record.fields.map fun field => field.name).Nodup := by
  obtain ⟨_, header, _, _, rfl⟩ := load_eq_ok_iff.mp loaded
  exact (fields_scoped header document).1

theorem propertyNames_of_load :
    (dump.record.properties.map fun property => property.name).Nodup := by
  obtain ⟨_, header, _, _, rfl⟩ := load_eq_ok_iff.mp loaded
  exact (properties_scoped header document).1

theorem methodTokens_of_load : (dump.record.methods.map fun method => method.token).Nodup := by
  obtain ⟨_, header, _, _, rfl⟩ := load_eq_ok_iff.mp loaded
  exact (methods_scoped header document).1

theorem declaringType_of_load {method : Method} (known : method ∈ dump.record.methods) :
    method.declaringType = dump.record.selfType := by
  obtain ⟨_, header, _, _, rfl⟩ := load_eq_ok_iff.mp loaded
  exact (methods_scoped header document).2 method known

theorem accessor_mem_of_load {property : Property} (known : property ∈ dump.record.properties)
    {accessor : Method} (ofProperty : property.IsAccessor accessor) :
    accessor ∈ dump.record.methods := by
  obtain ⟨_, header, _, _, rfl⟩ := load_eq_ok_iff.mp loaded
  have only := ((properties_scoped header document).2 property known).2 accessor ofProperty
  exact (List.mem_filter.mp (only ▸ List.mem_singleton_self accessor)).1

theorem body_of_load {method : Method} (known : method ∈ dump.record.methods) {body : Body}
    (found : dump.bodies.find? method.token = some body) :
    WellScopedBody dump.record.fields dump.record.methods method body ∧ Declared body.vars := by
  obtain ⟨_, header, _, _, rfl⟩ := load_eq_ok_iff.mp loaded
  exact bodies_scoped header document known (mem_of_find? found)

end Loaded

/-! ### A dump of a record with an equality -/

/-- A dump of `record Point(int X)` with an `Equals` that returns the value of an operation. -/
def equatableDocument (operation : String) : Document :=
  .object [
    ("record", .object [("name", .string "Point")]),
    ("fields", .list [.object [
      ("name", .string "<X>k__BackingField"), ("type", .string "int")]]),
    ("methods", .list [
      .object [
        ("name", .string "get_X"), ("returnType", .string "int"),
        ("body", .object [("instructions", .list [.object [
          ("op", .string "leave"),
          ("value", .object [("op", .string "ldfld"), ("field", .string "<X>k__BackingField"),
            ("target", .string "ldthis")])]])])],
      .object [
        ("name", .string "Equals"), ("returnType", .string "int"), ("isVirtual", .bool true),
        ("parameters", .list [.object [
          ("name", .string "other"), ("type", .string "Point")]]),
        ("body", .object [("instructions", .list [.object [
          ("op", .string "leave"), ("value", .string operation)]])])]]),
    ("properties", .list [.object [
      ("name", .string "X"), ("type", .string "int"), ("getter", .string "get_X")]])]

def pointSelf : Ty := .named "" "Point" [] false

def equatableEquals : Method :=
  { name := "Equals", token := firstMethodToken + 1, declaringType := pointSelf, isStatic := false
    accessibility := .publicAccess, attributes := [], isExplicitImplementation := false
    parameters := [⟨"other", pointSelf⟩], returnType := .named "System" "Int32" [] false
    returnAttributes := [], isVirtual := true, isOverride := false, isSealed := false
    isAbstract := false, isOperator := false, hasBody := true }

/-- What is loaded from it, if the operation stands for `value`. -/
def equatableDump (value : Instr) : RecordDump :=
  { fileName := "point.yaml"
    record := { pointDump.record with methods := pointDump.record.methods ++ [equatableEquals] }
    bodies := pointDump.bodies ++ [(equatableEquals.token,
      ⟨[.leave .body value],
        [⟨0, .parameter, -1, "this", pointSelf⟩, ⟨1, .parameter, 0, "other", pointSelf⟩]⟩)] }

theorem load_equatableDocument {operation : String} {value : Instr}
    (bare : ∀ scope path, readBare scope operation path = .ok value) :
    load "point.yaml" (equatableDocument operation) = .ok (equatableDump value) := by
  -- types and names are read by lemmas, as evaluating their characters would be slow
  have int : Ty.parse? { typeParameters := [] } "int" =
      some (.named "System" "Int32" [] false) :=
    Ty.parseChars_builtin ⟨by decide, by decide, by decide⟩ "int" (by decide) rfl
  have point : Ty.parse? { typeParameters := [] } "Point" = some pointSelf :=
    Ty.parseChars_word (Ty.Written.of_qualified (by decide)) rfl rfl
  have getter : isOperatorName "get_X" = false := by decide
  have equality : isOperatorName "Equals" = false := by decide
  have next : firstMethodToken + 1 ≠ firstMethodToken := by decide
  have this (scope : BodyScope) (path : DocPath) : readBare scope "ldthis" path =
      (findVariable scope "this" path).map .load := rfl
  simp [equatableDocument, equatableDump, equatableEquals, pointDump, pointSelf, load,
    readSections, sectionItems, fieldSection, methodSection, propertySection, Section.collect,
    Section.collectFrom, Collected.values, readHeader, readField, readMethod, readProperty,
    readMember, readAttributes, readType, readHasBody, readParameters, readParameter, readAccessor,
    DumpScope.method, getter, equality, next, bare, this, Reading.type, int, point,
    Reading.object, Reading.string, Reading.string?, Reading.strings, Reading.list, Reading.each,
    Reading.integer?, Reading.flag, Reading.accessibility, Except.map, collectBodies, bodyAt,
    readBody, declare, declareVariables, declareParameters, declareLocals, receiver, readInstr,
    Operation.ofName?, Operation.names, List.lookup_cons, readContainer, readOptional,
    readOperand, readOperands, readFieldRef, findVariable, DumpScope.field?,
    RecordHeader.selfType, Document.isObject, Document.get?, Document.find?]

/-! ### A dump of a record with generated members -/

/-- The node of an instruction. -/
def instructionNode (operation : String) (operands : List (String × Document)) : Document :=
  .object (("op", .string operation) :: operands)

def callNode (operation method : String) (args : List Document) : Document :=
  instructionNode operation [("method", .string method), ("args", .list args)]

def loadNode (name : String) : Document :=
  instructionNode "ldloc" [("var", .string name)]

def textNode (text : String) : Document :=
  instructionNode "ldstr" [("value", .string text)]

def returnNode (value : Document) : Document :=
  instructionNode "leave" [("value", value)]

def fieldNode (target : Document) (property : String) : Document :=
  instructionNode "ldfld"
    [("field", .string ("<" ++ property ++ ">k__BackingField")), ("target", target)]

def getterNode (property : String) : Document :=
  callNode "call" ("get_" ++ property) [.string "ldthis"]

/-- The node of a call that appends to the variable `builder`. -/
def appendNode (value : Document) : Document :=
  callNode "callvirt" "System.Text.StringBuilder::Append" [loadNode "builder", value]

/-- The node of a comparison of a field between the receiver and the variable `other`. -/
def comparisonNode (property : String) : Document :=
  callNode "callvirt" "System.Collections.Generic.EqualityComparer`1[[int]]::Equals"
    [callNode "call" "static System.Collections.Generic.EqualityComparer`1[[int]]::get_Default" [],
      fieldNode (.string "ldthis") property, fieldNode (loadNode "other") property]

def contractNode (target : Document) : Document :=
  callNode "callvirt" "Point::get_EqualityContract" [target]

/-- The entry of a parameter or of a local. -/
def variableEntry (name type : String) : Document :=
  .object [("name", .string name), ("type", .string type)]

def fieldEntry (property : String) (token : Int) : Document :=
  .object [("name", .string ("<" ++ property ++ ">k__BackingField")), ("type", .string "int"),
    ("token", .number (.integer token))]

def propertyEntry (name : String) : Document :=
  .object [("name", .string name), ("type", .string "int"), ("getter", .string ("get_" ++ name))]

def methodEntry (name : String) (token : Int) (mark : String)
    (parameters locals instructions : List Document) : Document :=
  .object [("name", .string name), ("token", .number (.integer token)), (mark, .bool true),
    ("parameters", .list parameters),
    ("body", .object [("locals", .list locals), ("instructions", .list instructions)])]

def getterEntry (property : String) (token : Int) : Document :=
  methodEntry ("get_" ++ property) token "isSealed" [] []
    [returnNode (fieldNode (.string "ldthis") property)]

def equalsEntry : Document :=
  methodEntry "Equals" 3 "isVirtual" [variableEntry "other" "Point"] []
    [returnNode (instructionNode "logic.and" [("operands", .list [
      instructionNode "comp"
        [("operator", .string "!="), ("left", loadNode "other"), ("right", .string "ldnull")],
      callNode "call" "System.Type::op_Equality"
        [contractNode (.string "ldthis"), contractNode (loadNode "other")],
      comparisonNode "X", comparisonNode "Y"])])]

/-- One of the labels is cut into two literals, and one of the values is printed as a text. -/
def printMembersEntry : Document :=
  methodEntry "PrintMembers" 4 "isVirtual"
    [variableEntry "builder" "System.Text.StringBuilder"] []
    [appendNode (textNode "X = "), appendNode (getterNode "X"),
      appendNode (textNode ", Y"), appendNode (textNode " = "),
      appendNode (callNode "callvirt" "int::ToString" [instructionNode "addressof"
        [("value", getterNode "Y"), ("type", .string "int")]]),
      returnNode (instructionNode "ldc.i4" [("value", .number (.integer 1))])]

def toStringEntry : Document :=
  methodEntry "ToString" 5 "isOverride" []
    [variableEntry "builder" "System.Text.StringBuilder"]
    [instructionNode "stloc"
        [("var", .string "builder"), ("value", callNode "newobj" "System.Text.StringBuilder::.ctor" [])],
      appendNode (textNode "Point"), appendNode (textNode " \x7b "),
      instructionNode "if"
        [("condition", callNode "callvirt" "Point::PrintMembers" [.string "ldthis", loadNode "builder"]),
          ("then", appendNode (textNode " "))],
      appendNode (textNode "\x7d"),
      returnNode (callNode "callvirt" "object::ToString" [loadNode "builder"])]

/-- A dump of `record Point(int X, int Y)` over the given entries of fields and methods. -/
def synthesizedDocument (fields methods : List Document) : Document :=
  .object [("record", .object [("name", .string "Point")]), ("fields", .list fields),
    ("methods", .list methods), ("properties", .list [propertyEntry "X", propertyEntry "Y"])]

def synthesizedFields : List Document := [fieldEntry "X" 1, fieldEntry "Y" 2]

def synthesizedMethods : List Document :=
  [getterEntry "X" 1, getterEntry "Y" 2, equalsEntry, printMembersEntry, toStringEntry]

/-- What is loaded from it. -/
def synthesizedDump : RecordDump :=
  (load "point.yaml" (synthesizedDocument synthesizedFields synthesizedMethods)).toOption.getD default

/-- The method at a position of this dump. -/
def synthesizedMethod (position : Nat) : Method :=
  synthesizedDump.record.methods.getD position default

/-- The dump loads, and has all five methods. -/
theorem isSome_synthesizedDump :
    (load "point.yaml" (synthesizedDocument synthesizedFields synthesizedMethods)).toOption.any
      (fun dump => dump.record.methods.length == 5) = true := by
  decide +kernel

theorem load_synthesizedDocument :
    load "point.yaml" (synthesizedDocument synthesizedFields synthesizedMethods) =
      .ok synthesizedDump := by
  obtain ⟨dump, loads, _⟩ := (Option.any_eq_true _ _).mp isSome_synthesizedDump
  rw [synthesizedDump, loads]
  revert loads
  generalize load "point.yaml" (synthesizedDocument synthesizedFields synthesizedMethods) = outcome
  intro loads
  cases outcome with
  | ok dump =>
    cases loads
    rfl
  | error problems => cases loads

theorem synthesizedMethod_mem {position : Nat} (inside : position < 5) :
    synthesizedMethod position ∈ synthesizedDump.record.methods := by
  obtain ⟨dump, loads, number⟩ := (Option.any_eq_true _ _).mp isSome_synthesizedDump
  have same : synthesizedDump = dump := by rw [synthesizedDump, loads, Option.getD_some]
  have bound : position < dump.record.methods.length := beq_iff_eq.mp number ▸ inside
  rw [synthesizedMethod, same, List.getD_eq_getElem?_getD, List.getElem?_eq_getElem bound]
  exact List.getElem_mem bound

end MemberOrigin.Dump
