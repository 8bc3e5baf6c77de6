import MemberOrigin.Proofs.Classification.Answers
import MemberOrigin.Proofs.Generated.Rendering

/-!
# The text of a recognised record

## Main result

`Dump.toString_rendersRecord`: where the `PrintMembers` and the `ToString` of a loaded root record are
recognised, running them gives the text that the record is meant to have, with one piece for the value
of each member. The pieces are what the getters return exactly if `PrintMembers` makes no object before
it returns.

## Proof strategy

Recognition gives the form of both bodies, and the loader makes sure that what they name is declared.
What the forms write is known for every such body. The call of `PrintMembers` links the two: what it
returns decides whether a blank follows.
-/
namespace MemberOrigin

namespace RecordDump

/-- What a `PrintMembers` of a root record does with a string builder. It calls no other one. -/
def printing (dump : RecordDump) (printer : Method) (position : Nat) (builders : Builders) :
    Option (Datum × Builders) := do
  let body ← dump.bodies.ofMethod printer
  body.run ⟨dump.record.methods, fun _ _ => none⟩ [.builder position] builders

/-- The text that a `ToString` returns, if this `PrintMembers` is the one that it calls. -/
def renderedText (dump : RecordDump) (printer writer : Method) : Option (List Piece) := do
  let body ← dump.bodies.ofMethod writer
  match ← body.run ⟨dump.record.methods, dump.printing printer⟩ [] [] with
  | (.text pieces, _) => return pieces
  | _ => none

end RecordDump

namespace Analysis

variable {analysis : Analysis} {bodies : Method → Option Body} {method : Method}
  (generated : (analysis.methodIsGenerated method).eval bodies = .ok true)

include generated

theorem printMembers_of_generated (name : method.name = printMembersName) :
    Generated.SynthesizedPrintMembers analysis bodies method := by
  have verdict : analysis.verdictOnMethod method = Generated.printMembers analysis method := by
    simp [verdictOnMethod, name, printMembersName, equalityOperatorName, inequalityOperatorName,
      cloneName]
  rw [methodIsGenerated, Query.eval, verdict] at generated
  exact Generated.synthesizedPrintMembers_of_printMembers generated

theorem toString_of_generated (name : method.name = "ToString") :
    Generated.SynthesizedToString analysis bodies method := by
  have verdict : analysis.verdictOnMethod method =
      if method.parameters.isEmpty then Generated.toString analysis method else return false := by
    simp [verdictOnMethod, name, printMembersName, equalityOperatorName, inequalityOperatorName,
      cloneName]
  rw [methodIsGenerated, Query.eval, verdict] at generated
  split at generated
  · exact Generated.synthesizedToString_of_toString generated
  · cases generated

end Analysis

namespace Dump

open Generated

section Loaded

variable {fileName : String} {document : Document} {dump : RecordDump}
  (loaded : load fileName document = .ok dump) {checked : Bool} {analysis : Analysis}
  (built : (Analysis.build dump.record checked).eval dump.bodies.ofMethod = .ok analysis)

include loaded built

/-- A recognised `PrintMembers` of a root record appends the members in order. -/
theorem printing_of_generated (root : dump.record.isInherited = false) {printer : Method}
    (declared : printer ∈ dump.record.methods) (name : printer.name = printMembersName)
    (generated : (analysis.methodIsGenerated printer).eval dump.bodies.ofMethod = .ok true) :
    ∃ order shown body, analysis.memberOrder = some order ∧
      dump.bodies.ofMethod printer = some body ∧ shown.map Prod.fst = order.filter isPrintable ∧
      (∀ member ∈ shown, member.OfGetter ∨ member.OfObject) ∧
      ((∀ member ∈ shown, member.OfGetter) ↔
        ∀ instr ∈ body.upToReturn.instructions, instr.MakesNoObject) ∧
      ∀ position builders, dump.printing printer position builders =
        some (.int (if shown.isEmpty then 0 else 1),
          builders.modify position (· ++ membersPieces shown)) := by
  obtain ⟨_, _, paired⟩ := of_build loaded built
  have isRoot : analysis.isInherited = false := by
    obtain ⟨backing, _, rfl⟩ := Analysis.eval_build_eq_ok_iff.mp built
    exact root
  obtain ⟨_, order, body, builder, known, ⟨_, _, available⟩, parameter, _, prints⟩ :=
    Analysis.printMembers_of_generated generated name
  obtain ⟨rfl, _⟩ := (paired.memberOrder order).mp known
  -- without a base record, nothing is printed in front of the own members
  rw [isRoot] at prints
  obtain ⟨fitting, numbered⟩ := body_of_load loaded declared available
  have getters : ∀ property ∈ dump.record.properties.filter isPrintable, ∀ getter,
      property.getter = some getter → getter ∈ dump.record.methods := by
    intro property printed getter own
    exact accessor_mem_of_load loaded (List.mem_filter.mp printed).1 (.inl own)
  obtain ⟨shown, members, shows, ofGetters, runs⟩ :=
    run_printsRecord ⟨dump.record.methods, fun _ _ => none⟩ numbered fitting.inScope
      (methodTokens_of_load loaded) getters parameter prints
  refine ⟨_, shown, body, known, available, members, shows, ofGetters, fun position builders => ?_⟩
  rw [RecordDump.printing, available]
  exact runs position builders

end Loaded

/-- The string builder is kept in a local, and the members are printed. -/
def printsToLocal (body : Body) : Bool :=
  (body.instructions[0]?.bind Instr.stored?).all (fun stored => stored.1.kind == .localSlot)
    && (body.instructions[3]?.bind Instr.branch?).isSome

theorem of_printsToLocal {body : Body} (prints : printsToLocal body = true) :
    (∀ v value, body.instructions[0]? = some (.store v value) → v.kind = .localSlot) ∧
      ∃ condition onTrue, body.instructions[3]? = some (.branch condition onTrue .nop) := by
  simp only [printsToLocal, Bool.and_eq_true, Option.all_eq_true, Option.bind_eq_some_iff,
    Option.isSome_iff_exists] at prints
  obtain ⟨isLocal, ⟨condition, onTrue⟩, step, third, isBranch⟩ := prints
  exact ⟨fun v value first => beq_iff_eq.mp (isLocal (v, value) ⟨_, first, rfl⟩),
    condition, onTrue, branch?_eq_some_iff.mp isBranch ▸ third⟩

/-- The text of a recognised record: for every loaded root record, the recognised `ToString` that
keeps its string builder in a local and prints its members by the recognised `PrintMembers` returns
the name of the record and, between braces, each printable member with its label and one piece for its
value, in order and joined by separators. How the labels are cut does not matter. Each piece is what
the own getter returns, unless `PrintMembers` makes an object where it should call the getter. -/
theorem toString_rendersRecord {fileName : String} {document : Document} {dump : RecordDump}
    (loaded : load fileName document = .ok dump) (root : dump.record.isInherited = false)
    {checked : Bool} {analysis : Analysis}
    (built : (Analysis.build dump.record checked).eval dump.bodies.ofMethod = .ok analysis)
    {printer writer : Method} (ofPrinter : printer ∈ dump.record.methods)
    (printerName : printer.name = "PrintMembers")
    (printerGenerated :
      (analysis.methodIsGenerated printer).eval dump.bodies.ofMethod = .ok true)
    (ofWriter : writer ∈ dump.record.methods) (writerName : writer.name = "ToString")
    (writerGenerated :
      (analysis.methodIsGenerated writer).eval dump.bodies.ofMethod = .ok true)
    {body : Body} (found : dump.bodies.ofMethod writer = some body)
    (isLocal : ∀ v value, body.instructions[0]? = some (.store v value) → v.kind = .localSlot)
    (step : ∃ condition onTrue, body.instructions[3]? = some (.branch condition onTrue .nop)) :
    ∃ order shown printing, analysis.memberOrder = some order ∧
      dump.bodies.ofMethod printer = some printing ∧
      shown.map Prod.fst = order.filter isPrintable ∧
      dump.renderedText printer writer = some (recordPieces dump.record.name shown) ∧
      (∀ member ∈ shown, member.OfGetter ∨ member.OfObject) ∧
      ((∀ member ∈ shown, member.OfGetter) ↔
        ∀ instr ∈ printing.upToReturn.instructions, instr.MakesNoObject) := by
  obtain ⟨order, shown, printing, known, ofBody, members, shows, ofGetters, prints⟩ :=
    printing_of_generated loaded built root ofPrinter printerName printerGenerated
  refine ⟨order, shown, printing, known, ofBody, members, ?_, shows, ofGetters⟩
  obtain ⟨other, ⟨_, _, available⟩, writes⟩ :=
    (Analysis.toString_of_generated writerGenerated writerName).shape
  obtain rfl : body = other := Option.some.inj (found.symm.trans available)
  obtain ⟨fitting, numbered⟩ := body_of_load loaded ofWriter found
  rw [(of_build loaded built).1] at writes
  -- running the body, the call of the printer gives what the printer appends
  have runs : body.run ⟨dump.record.methods, dump.printing printer⟩ [] [] =
      some (.text (recordPieces dump.record.name shown), [recordPieces dump.record.name shown]) :=
    run_writesRecord numbered fitting.inScope prints writes isLocal step
  simp [RecordDump.renderedText, found, runs]

theorem toString_rendersRecord_synthesizedDump :
    ∃ analysis order shown printing,
      (Analysis.build synthesizedDump.record true).eval synthesizedDump.bodies.ofMethod =
        .ok analysis ∧
      (analysis.methodIsGenerated (synthesizedMethod 3)).eval synthesizedDump.bodies.ofMethod =
        .ok true ∧
      (analysis.methodIsGenerated (synthesizedMethod 4)).eval synthesizedDump.bodies.ofMethod =
        .ok true ∧
      analysis.memberOrder = some order ∧
      synthesizedDump.bodies.ofMethod (synthesizedMethod 3) = some printing ∧
      shown.map Prod.fst = order.filter isPrintable ∧
      synthesizedDump.renderedText (synthesizedMethod 3) (synthesizedMethod 4) =
        some (recordPieces synthesizedDump.record.name shown) ∧
      (∀ member ∈ shown, member.OfGetter ∨ member.OfObject) ∧
      ((∀ member ∈ shown, member.OfGetter) ↔
        ∀ instr ∈ printing.upToReturn.instructions, instr.MakesNoObject) := by
  -- one evaluation gives all that is asked of the dump
  have evaluated : (synthesizedDump.record.isInherited = false ∧
        (synthesizedMethod 3).name = "PrintMembers" ∧ (synthesizedMethod 4).name = "ToString") ∧
      ((Analysis.build synthesizedDump.record true >>= fun analysis => do
        let printer ← analysis.methodIsGenerated (synthesizedMethod 3)
        let writer ← analysis.methodIsGenerated (synthesizedMethod 4)
        return printer && writer).eval synthesizedDump.bodies.ofMethod = .ok true) ∧
      (synthesizedDump.bodies.ofMethod (synthesizedMethod 4)).any printsToLocal = true := by
    decide +kernel
  obtain ⟨⟨root, printerName, writerName⟩, evaluated, writes⟩ := evaluated
  obtain ⟨analysis, built, evaluated⟩ := (Query.eval_bind_eq_ok_iff _).mp evaluated
  obtain ⟨printer, printerGenerated, evaluated⟩ := (Query.eval_bind_eq_ok_iff _).mp evaluated
  obtain ⟨writer, writerGenerated, evaluated⟩ := (Query.eval_bind_eq_ok_iff _).mp evaluated
  rw [Query.eval_pure, Except.ok.injEq, Bool.and_eq_true] at evaluated
  obtain ⟨rfl, rfl⟩ := evaluated
  obtain ⟨body, found, prints⟩ := (Option.any_eq_true _ _).mp writes
  obtain ⟨isLocal, step⟩ := of_printsToLocal prints
  obtain ⟨order, shown, printing, rendering⟩ :=
    toString_rendersRecord load_synthesizedDocument root built (synthesizedMethod_mem (by decide))
      printerName printerGenerated (synthesizedMethod_mem (by decide)) writerName writerGenerated
      found isLocal step
  exact ⟨analysis, order, shown, printing, built, printerGenerated, writerGenerated, rendering⟩

/-- The piece of an object that is made. -/
def isObjectPiece : Piece → Bool
  | .object _ => true
  | _ => false

theorem any_isObjectPiece_written (text : String) : (written text).any isObjectPiece = false := by
  simp [written, isObjectPiece]

/-- A text that shows what the getters return has no piece of an object. -/
theorem any_isObjectPiece_recordPieces {shown : List Shown}
    (ofGetters : ∀ member ∈ shown, member.OfGetter) (name : String) :
    (recordPieces name shown).any isObjectPiece = false := by
  have ofMembers : (membersPieces shown).any isObjectPiece = false := by
    rw [← piecesFrom_zero, piecesFrom, List.any_flatMap, List.any_eq_false]
    rintro ⟨member, position⟩ listed
    obtain ⟨getter, own, piece⟩ := Option.map_eq_some_iff.mp
      (ofGetters member (List.fst_mem_of_mem_zipIdx listed))
    simp [memberPieces, any_isObjectPiece_written, ← piece, isObjectPiece]
  cases shown <;> simp [recordPieces, any_isObjectPiece_written, ofMembers]

/-- The printing of `Point`, with an object made by the reference to a getter in place of its call. -/
def creatingEntry : Document :=
  methodEntry "PrintMembers" 4 "isVirtual"
    [variableEntry "builder" "System.Text.StringBuilder"] []
    [appendNode (textNode "X = "), appendNode (callNode "newobj" "get_X" [.string "ldthis"]),
      appendNode (textNode ", Y = "), appendNode (getterNode "Y"),
      returnNode (instructionNode "ldc.i4" [("value", .number (.integer 1))])]

def creatingDocument : Document :=
  synthesizedDocument synthesizedFields
    [getterEntry "X" 1, getterEntry "Y" 2, equalsEntry, creatingEntry, toStringEntry]

/-- Both methods are recognised, and the text is none that shows what the getters return. -/
theorem not_rendersRecord_creatingDocument :
    ∃ dump, load "point.yaml" creatingDocument = .ok dump ∧ dump.record.isInherited = false ∧
      ∃ printer ∈ dump.record.methods, ∃ writer ∈ dump.record.methods,
        printer.name = "PrintMembers" ∧ writer.name = "ToString" ∧
        ((Analysis.build dump.record true >>= fun analysis => do
          let ofPrinter ← analysis.methodIsGenerated printer
          let ofWriter ← analysis.methodIsGenerated writer
          return ofPrinter && ofWriter).eval dump.bodies.ofMethod = .ok true) ∧
        (∃ body, dump.bodies.ofMethod writer = some body ∧
          (∀ v value, body.instructions[0]? = some (.store v value) → v.kind = .localSlot) ∧
          ∃ condition onTrue, body.instructions[3]? = some (.branch condition onTrue .nop)) ∧
        ∀ shown : List Shown, (∀ member ∈ shown, member.OfGetter) →
          dump.renderedText printer writer ≠ some (recordPieces dump.record.name shown) := by
  -- one evaluation gives all that is asked of the dump
  have evaluated : (load "point.yaml" creatingDocument).toOption.any (fun dump =>
      !dump.record.isInherited &&
      dump.record.methods[3]?.any fun printer => dump.record.methods[4]?.any fun writer =>
        (printer.name == "PrintMembers" && writer.name == "ToString") &&
        decide ((Analysis.build dump.record true >>= fun analysis => do
          let ofPrinter ← analysis.methodIsGenerated printer
          let ofWriter ← analysis.methodIsGenerated writer
          return ofPrinter && ofWriter).eval dump.bodies.ofMethod = .ok true) &&
        (dump.bodies.ofMethod writer).any printsToLocal &&
        (dump.renderedText printer writer).any fun pieces => pieces.any isObjectPiece) = true := by
    decide +kernel
  cases loads : load "point.yaml" creatingDocument with
  | error problems =>
    rw [loads] at evaluated
    cases evaluated
  | ok dump =>
    simp only [loads, Except.toOption, Option.any_some, Bool.and_eq_true, Bool.not_eq_true',
      Option.any_eq_true, beq_iff_eq, decide_eq_true_eq] at evaluated
    obtain ⟨root, printer, third, writer, fourth,
      ⟨⟨names, recognised⟩, body, found, prints⟩, pieces, text, made⟩ := evaluated
    refine ⟨dump, rfl, root, printer, List.mem_of_getElem? third, writer,
      List.mem_of_getElem? fourth, names.1, names.2, recognised,
      ⟨body, found, of_printsToLocal prints⟩, fun shown ofGetters same => ?_⟩
    rw [text, Option.some.injEq] at same
    rw [same, any_isObjectPiece_recordPieces ofGetters] at made
    cases made

end Dump

end MemberOrigin
