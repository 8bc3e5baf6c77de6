import MemberOrigin.Proofs.Dump.Loaded
import MemberOrigin.Proofs.Dump.Places
import MemberOrigin.Proofs.Generated.PrintMembers

/-!
# Call sites of loaded dumps

## Main result

`callSites_identified`: a call that is written with the bare name of a method goes to the one method
of that name, unless its token is zero, and one that is written with a type goes to no method at all.
A printed value is taken for that of a property only by a call of its own getter.

## Proof strategy

Every call of a body is read from a node of the document, which holds the text of its reference. A
bare name is resolved among all methods of the record, whose tokens are distinct; a reference with a
type gets no token.
-/
namespace MemberOrigin

/-- The instruction is part of the body, at any depth. -/
def Body.Has (body : Body) (instr : Instr) : Prop :=
  ∃ top ∈ body.instructions, Instr.Within instr top

theorem Body.Has.of_within {body : Body} {part whole : Instr} (inside : body.Has whole)
    (within : Instr.Within part whole) : body.Has part := by
  obtain ⟨top, member, above⟩ := inside
  exact ⟨top, member, within.trans above⟩

/-- The scope in which the instructions of a body of this dump are read. -/
def RecordDump.bodyScope (dump : RecordDump) (body : Body) : BodyScope :=
  { dump.scope with vars := body.vars }

namespace Dump

open Reading Instr

/-- The call is read from a node of the document that names its method by the text. -/
inductive WrittenAs (document : Document) (scope : BodyScope) (call : Instr) (text : String) : Prop
  | node {path : DocPath} {node : Document} {operation : String} {kind : CallKind}
      (stands : document.node? path.steps = some node)
      (named : node.get? "op" = some (.string operation))
      (calls : Operation.ofName? operation = some (.call kind))
      (method : node.get? "method" = some (.string text))
      (read : readInstr scope node path = .ok call)

section Calls

variable {document : Document} {scope : BodyScope} {path : DocPath}

/-- The text is the one that the reference of the call was read from. -/
theorem WrittenAs.readMethodRef {call : Instr} {text : String}
    (written : WrittenAs document scope call text) {reference : MethodRef}
    (uses : call.usedMethod? = some reference) :
    ∃ path, Dump.readMethodRef scope.toDumpScope text path = .ok reference := by
  obtain ⟨_, _, _, onMethod, read⟩ := written
  obtain ⟨_, _, other, _, _, found, onReference⟩ := (readInstr_named read).ofMethod reference uses
  rw [onMethod, Option.some.injEq, Document.string.injEq] at found
  subst found
  exact ⟨_, onReference⟩

/-- What a call refers to: the one method of the name that it is written with, or something without
a token. -/
theorem reference_of_written {call : Instr} {text : String}
    (written : WrittenAs document scope call text) {reference : MethodRef}
    (uses : call.usedMethod? = some reference) :
    (BareName text ∧ ∃ method ∈ scope.methods, reference = method.toRef ∧
      ∀ other ∈ scope.methods, other.name = text ↔ other = method) ∨
      (¬ BareName text ∧ reference.token = none) := by
  obtain ⟨path, read⟩ := written.readMethodRef uses
  rcases readMethodRef_cases read with ⟨bare, method, found, same⟩ | external
  · have only (other : Method) : other ∈ scope.methods ∧ other.name = text ↔ other = method := by
      have listed := List.mem_singleton (a := other) (b := method)
      rwa [← method_eq_ok_iff.mp found, List.mem_filter, beq_iff_eq] at listed
    exact .inl ⟨bare, method, ((only method).mpr rfl).1, same, fun other known =>
      ⟨fun named => (only other).mp ⟨known, named⟩, fun same => ((only other).mpr same).2⟩⟩
  · exact .inr external

/-- Every call in an instruction of the document is written in the document. -/
theorem everywhere_written {node : Document} (stands : document.node? path.steps = some node)
    {instr : Instr} (read : readInstr scope node path = .ok instr) :
    Everywhere (fun call => ∀ reference, call.usedMethod? = some reference →
      ∃ text, WrittenAs document scope call text) instr := by
  refine readInstr_everywhere (by simp [usedMethod?]) (by simp [usedMethod?]) ?_ read
  intro steps part call inside read reference uses
  obtain ⟨operation, kind, text, named, calls, onMethod, _⟩ :=
    (readInstr_named read).ofMethod reference uses
  have placed : document.node? (path.below steps).steps = some part := by
    rw [DocPath.below, Document.node?_append, stands]
    exact inside
  exact ⟨text, .node placed named calls onMethod read⟩

theorem written_of_readBody {scope : DumpScope} {method : Method} {value : Document} {body : Body}
    (stands : document.node? path.steps = some value)
    (read : readBody scope method value path = .ok body) {call : Instr} (inside : body.Has call)
    {reference : MethodRef} (uses : call.usedMethod? = some reference) :
    ∃ text, WrittenAs document { scope with vars := body.vars } call text := by
  simp only [readBody, bind_eq_ok_iff, object_eq_ok_iff] at read
  obtain ⟨_, ⟨_, rfl⟩, vars, _, items, onItems, instructions, each, read⟩ := read
  split at read
  · simp at read
  · cases read
    obtain ⟨top, member, within⟩ := inside
    obtain ⟨position, kept⟩ := List.mem_iff_getElem?.mp member
    obtain ⟨item, listed, readTop⟩ := getElem?_of_each each kept
    rw [Nat.zero_add] at readTop
    have onItem : document.node? ((path.key "instructions").index position).steps = some item := by
      -- a list that is not there is empty, so it has no item
      rcases get?_of_list onItems with rfl | entry
      · cases listed
      · exact Document.node?_item (Document.node?_key stands entry) listed
    exact everywhere_written onItem readTop call within reference uses

/-- What is printed for a property is read by a call of its getter, with or without a `ToString`
around it. -/
theorem exists_callsGetter {property : Property} {value : Instr}
    (prints : Generated.PrintsValue property value) :
    ∃ call, Within call value ∧ Generated.CallsGetter property call := by
  cases prints with
  | plain _ calls => exact ⟨_, .self, calls⟩
  | text _ _ calls => exact ⟨_, .operand List.mem_cons_self .self, calls⟩
  | boxed _ _ calls =>
    exact ⟨_, .operand List.mem_cons_self (.operand List.mem_cons_self .self), calls⟩

end Calls

/-! ### Loaded dumps -/

section Loaded

variable {fileName : String} {document : Document} {dump : RecordDump}
  (loaded : load fileName document = .ok dump)

include loaded

/-- Every call in a body of a loaded dump is written in the document. -/
theorem written_of_load {token : Int} {body : Body}
    (found : dump.bodies.find? token = some body) {call : Instr} (inside : body.Has call)
    {reference : MethodRef} (uses : call.usedMethod? = some reference) :
    ∃ text, WrittenAs document (dump.bodyScope body) call text := by
  obtain ⟨_, header, _, _, rfl⟩ := load_eq_ok_iff.mp loaded
  have member := mem_of_find? found
  rw [readSections_bodies] at member
  obtain ⟨position, other, kept, _, isBody⟩ := mem_collectBodies_iff.mp member
  rw [readSections_methods] at kept
  obtain ⟨value, placed, read⟩ := at_body kept isBody
  exact written_of_readBody (placed .root).2 read inside uses

/-- The reference to a method of the record targets this method only, and not even this one if its
token is zero. -/
theorem targets_toRef_iff {method definition : Method} (known : method ∈ dump.record.methods)
    (declared : definition ∈ dump.record.methods) :
    method.toRef.targets definition.toMember = true ↔ definition = method ∧ method.token ≠ 0 := by
  simp only [MethodRef.targets, Method.toRef, Bool.and_eq_true, bne_iff_ne, beq_iff_eq]
  constructor
  · -- the token is enough, because no two methods share one
    rintro ⟨⟨⟨nonzero, token⟩, _⟩, _⟩
    exact ⟨List.inj_on_of_nodup_map (methodTokens_of_load loaded) declared known token.symm, nonzero⟩
  · rintro ⟨rfl, nonzero⟩
    have ofRecord := declaringType_of_load loaded known
    simp [nonzero, ofRecord, RecordHeader.selfType, Ty.sameDefinition]

/-- A call that targets the getter of a property is written with its name. -/
theorem written_of_callsGetter {token : Int} {body : Body}
    (found : dump.bodies.find? token = some body) {property : Property}
    (known : property ∈ dump.record.properties) {call : Instr} (inside : body.Has call)
    (calls : Generated.CallsGetter property call) :
    ∃ getter, property.getter = some getter ∧ call.usedMethod? = some getter.toRef ∧
      WrittenAs document (dump.bodyScope body) call getter.name := by
  cases calls with
  | @call kind reference self getter own target receiver =>
    have declared : getter ∈ dump.record.methods := accessor_mem_of_load loaded known (.inl own)
    obtain ⟨text, written⟩ := written_of_load loaded found inside rfl
    rcases reference_of_written written rfl with ⟨_, called, isKnown, rfl, only⟩ | ⟨_, noToken⟩
    · obtain ⟨rfl, _⟩ := (targets_toRef_iff loaded isKnown declared).mp target
      obtain rfl := (only getter declared).mpr rfl
      exact ⟨getter, own, rfl, written⟩
    · -- a reference without a token targets no method
      simp [MethodRef.targets, noToken] at target

/-- Calls of a loaded dump identify what they call: a bare name is that of the one method of this
name, and a name with a type is that of no method of the record. A printed value is that of a
property only if it calls the getter of the property by its name. -/
theorem callSites_identified {token : Int} {body : Body}
    (found : dump.bodies.find? token = some body) :
    (∀ call reference, body.Has call → call.usedMethod? = some reference →
      (∃ text, WrittenAs document (dump.bodyScope body) call text) ∧
      ∀ text, WrittenAs document (dump.bodyScope body) call text →
        (BareName text → ∀ definition ∈ dump.record.methods,
          (reference.targets definition.toMember = true ↔
            (∀ other ∈ dump.record.methods, other.name = text ↔ other = definition) ∧
              definition.token ≠ 0)) ∧
        (¬ BareName text → ∀ definition : Member, reference.targets definition = false)) ∧
    ∀ property ∈ dump.record.properties, ∀ value, body.Has value →
      Generated.isPrintedValue property value = true →
        ∃ getter call, property.getter = some getter ∧ Within call value ∧
          call.usedMethod? = some getter.toRef ∧
          WrittenAs document (dump.bodyScope body) call getter.name := by
  constructor
  · intro call reference inside uses
    refine ⟨written_of_load loaded found inside uses, fun text written => ?_⟩
    rcases reference_of_written written uses with ⟨bare, called, isKnown, rfl, only⟩ |
      ⟨external, noToken⟩
    · refine ⟨fun _ definition declared => ?_, fun external => absurd bare external⟩
      rw [targets_toRef_iff loaded isKnown declared]
      constructor
      · rintro ⟨rfl, nonzero⟩
        exact ⟨only, nonzero⟩
      · -- the name was resolved to some method, which must be the unique one
        rintro ⟨unique, nonzero⟩
        obtain rfl := (unique called isKnown).mp ((only called isKnown).mpr rfl)
        exact ⟨rfl, nonzero⟩
    · exact ⟨fun bare => absurd bare external, fun _ definition => by
        simp [MethodRef.targets, noToken]⟩
  · intro property known value inside printed
    obtain ⟨call, within, calls⟩ := exists_callsGetter (Generated.isPrintedValue_iff.mp printed)
    obtain ⟨getter, own, uses, written⟩ :=
      written_of_callsGetter loaded found known (inside.of_within within) calls
    exact ⟨getter, call, own, within, uses, written⟩

end Loaded

/-- The value of `Y` is printed as a text, by an external `ToString` of what the getter gives. -/
theorem callSites_identified_synthesizedDump :
    load "point.yaml" (synthesizedDocument synthesizedFields synthesizedMethods) =
        .ok synthesizedDump ∧
      ∃ (body : Body) (value : Instr) (printing : MethodRef) (getter : Method) (call : Instr),
        synthesizedDump.bodies.find? 4 = some body ∧ body.Has value ∧
        value.usedMethod? = some printing ∧ getter.name = "get_Y" ∧ Within call value ∧
        call.usedMethod? = some getter.toRef ∧
        (∀ definition : Member, printing.targets definition = false) ∧
        ∀ definition ∈ synthesizedDump.record.methods,
          (getter.toRef.targets definition.toMember = true ↔
            (∀ other ∈ synthesizedDump.record.methods, other.name = "get_Y" ↔ other = definition) ∧
              definition.token ≠ 0) := by
  -- one evaluation gives all that is asked of the dump
  have evaluated : ((synthesizedDump.bodies.find? 4).any fun body =>
      body.instructions.any fun top => top.operands.any fun value =>
        value.usedMethod?.any (fun printing => printing.token.isNone) &&
          synthesizedDump.record.properties.any fun property =>
            property.getter.any (fun getter => getter.name == "get_Y") &&
              Generated.isPrintedValue property value) = true := by
    decide +kernel
  simp only [Option.any_eq_true, List.any_eq_true, Bool.and_eq_true, beq_iff_eq,
    Option.isNone_iff_eq_none] at evaluated
  obtain ⟨body, found, top, member, value, operand, ⟨printing, uses, noToken⟩, property, known,
    ⟨getter, own, name⟩, printed⟩ := evaluated
  have inside : body.Has value := ⟨top, member, .operand operand .self⟩
  obtain ⟨ofCalls, ofPrinted⟩ := callSites_identified load_synthesizedDocument found
  obtain ⟨other, call, own', within, calls, written⟩ := ofPrinted property known value inside printed
  obtain rfl : getter = other := Option.some.inj (own.symm.trans own')
  refine ⟨load_synthesizedDocument, body, value, printing, getter, call, found, inside, uses, name,
    within, calls, ?_, ?_⟩
  · obtain ⟨text, onText⟩ := (ofCalls value printing inside uses).1
    refine ((ofCalls value printing inside uses).2 text onText).2 fun bare => ?_
    rcases reference_of_written onText uses with ⟨_, method, _, same, _⟩ | ⟨external, _⟩
    · simp [same, Method.toRef] at noToken
    · exact external bare
  · rw [name] at written
    exact ((ofCalls call _ (inside.of_within within) calls).2 _ written).1 (by decide)

end Dump

end MemberOrigin
