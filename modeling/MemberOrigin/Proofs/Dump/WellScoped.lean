import Mathlib.Data.List.Nodup
import MemberOrigin.Dump.Loader
import MemberOrigin.Proofs.Dump.Bodies
import MemberOrigin.Proofs.Ty.Reading

/-!
# Scoping of loaded dumps

## Main result

`load_wellScoped`: in every dump that loads, declarations are told apart by name or token, belong to
the record, and refer to each other without ambiguity. Exactly the methods with a body have an entry
among the bodies, and everything that a body names at any depth is declared.

## Proof strategy

A dump loads only without problems, so that nothing that was read is left out. The sections give
distinctness and what single readings guarantee, and the bodies are read over the methods and fields
that were kept.
-/
namespace MemberOrigin

/-- A dump in which all names and tokens are resolved. -/
structure RecordDump.WellScoped (dump : RecordDump) : Prop where
  fieldNames : (dump.record.fields.map fun field => field.name).Nodup
  propertyNames : (dump.record.properties.map fun property => property.name).Nodup
  methodTokens : (dump.record.methods.map fun method => method.token).Nodup
  ofFields : ∀ field ∈ dump.record.fields, field.declaringType = dump.record.selfType
  ofMethods : ∀ method ∈ dump.record.methods, method.declaringType = dump.record.selfType
  ofProperties : ∀ property ∈ dump.record.properties,
    property.declaringType = dump.record.selfType
  /-- An accessor is a method of the record, and the only one of its name. -/
  accessors : ∀ property ∈ dump.record.properties, ∀ accessor,
    property.getter = some accessor ∨ property.setter = some accessor →
      dump.record.methods.filter (fun method => method.name == accessor.name) = [accessor]
  bodyTokens : (dump.bodies.map Prod.fst).Nodup
  hasBody : ∀ token, (dump.bodies.find? token).isSome = true ↔
    ∃ method ∈ dump.record.methods, method.token = token ∧ method.hasBody = true
  bodies : ∀ method ∈ dump.record.methods, ∀ body, dump.bodies.find? method.token = some body →
    Dump.WellScopedBody dump.record.fields dump.record.methods method body

namespace Dump

/-! ### Collected bodies -/

section Collected

variable {scope : DumpScope} {items : List Document} {kept : List (Nat × Method)}

/-- Collected are the bodies that can be read. -/
theorem mem_collectBodies_iff {token : Int} {body : Body} :
    (token, body) ∈ (collectBodies scope items kept).1 ↔
      ∃ position method, (position, method) ∈ kept ∧ method.token = token ∧
        bodyAt scope items position method = some (.ok body) := by
  induction kept with
  | nil => simp [collectBodies]
  | cons entry rest ih =>
    obtain ⟨position, method⟩ := entry
    simp only [collectBodies, List.mem_cons, Prod.mk.injEq, or_and_right, exists_or, and_assoc,
      exists_eq_left, exists_and_left, ← ih]
    split
    next none => simp [none]
    next found ok => simp [ok, eq_comm]
    next problem error => simp [error]

theorem mem_problems_collectBodies_iff {problem : Problem} :
    problem ∈ (collectBodies scope items kept).2 ↔
      ∃ position method, (position, method) ∈ kept ∧
        bodyAt scope items position method = some (.error problem) := by
  induction kept with
  | nil => simp [collectBodies]
  | cons entry rest ih =>
    obtain ⟨position, method⟩ := entry
    simp only [collectBodies, List.mem_cons, Prod.mk.injEq, or_and_right, exists_or, and_assoc,
      exists_eq_left, exists_and_left, ← ih]
    split
    next none => simp [none]
    next found ok => simp [ok]
    next other error => simp [error, eq_comm]

/-- Without problems, every body that is there can be read. -/
theorem exists_body_of_no_problems (fine : (collectBodies scope items kept).2 = [])
    {position : Nat} {method : Method} (member : (position, method) ∈ kept)
    {reading : Reading Body} (found : bodyAt scope items position method = some reading) :
    ∃ body, reading = .ok body := by
  cases reading with
  | ok body => exact ⟨body, rfl⟩
  | error problem =>
    have reported := mem_problems_collectBodies_iff.mpr ⟨position, method, member, found⟩
    rw [fine] at reported
    cases reported

theorem tokens_collectBodies_sublist :
    ((collectBodies scope items kept).1.map Prod.fst).Sublist
      (kept.map fun entry => entry.2.token) := by
  induction kept with
  | nil => simp [collectBodies]
  | cons entry rest ih =>
    simp only [collectBodies]
    split
    · exact ih.cons _
    · exact ih.cons_cons _
    · exact ih.cons _

end Collected

/-- A kept method with a body has a body that can be read, and others have none. -/
theorem isSome_bodyAt_iff {scope other : DumpScope} {items : List Document} {position : Nat}
    {method : Method}
    (kept : (position, method) ∈ ((methodSection other).collect items).kept) :
    (bodyAt scope items position method).isSome = true ↔ method.hasBody = true := by
  obtain ⟨item, place, read⟩ := Section.exists_of_mem_kept _ kept
  have found : items[position]? = some item := List.mem_zipIdx_iff_getElem?.mp place
  have isObject := (readMethod_declaringType read).1
  simp [bodyAt, found, isObject]

theorem readBody_of_bodyAt {scope : DumpScope} {items : List Document} {position : Nat}
    {method : Method} {body : Body}
    (found : bodyAt scope items position method = some (.ok body)) :
    ∃ value path, readBody scope method value path = .ok body := by
  unfold bodyAt at found
  split at found
  · split at found
    · exact ⟨_, _, Option.some.inj found⟩
    · cases found
  · cases found

/-- A body among the bodies is one that is listed under its token. -/
theorem mem_of_find? {bodies : Bodies} {token : Int} {body : Body}
    (found : bodies.find? token = some body) : (token, body) ∈ bodies := by
  obtain ⟨before, after, rfl, _⟩ := List.lookup_eq_some_iff.mp found
  simp

theorem isSome_find?_iff {bodies : Bodies} {token : Int} :
    (bodies.find? token).isSome = true ↔ ∃ body, (token, body) ∈ bodies := by
  simp [Bodies.find?]

/-! ### Sections -/

section Sections

variable (header : RecordHeader) (root : Document)

/-- The scope in which the fields and the methods of a dump are read. -/
def headerScope : DumpScope :=
  { selfType := header.selfType, typeParameters := header.typeParameters }

/-- The scope in which the properties and the bodies of a dump are read. -/
def fullScope : DumpScope :=
  { headerScope header with
    fields := (readSections header root).fields.values
    methods := (readSections header root).methods.values }

theorem readSections_fields : (readSections header root).fields =
    (fieldSection (headerScope header)).collect (sectionItems root "fields").1 := rfl

theorem readSections_methods : (readSections header root).methods =
    (methodSection (headerScope header)).collect (sectionItems root "methods").1 := rfl

theorem readSections_properties : (readSections header root).properties =
    (propertySection (fullScope header root)).collect (sectionItems root "properties").1 := rfl

/-- Bodies are read from the entries of the methods that were kept. -/
theorem readSections_bodies : (readSections header root).bodies =
    (collectBodies (fullScope header root) (sectionItems root "methods").1
      (readSections header root).methods.kept).1 := rfl

/-- There are no problems if none of the lists and none of the entries has one. -/
theorem problems_eq_nil_iff :
    (readSections header root).problems = [] ↔
      ((sectionItems root "fields").2 = [] ∧ (readSections header root).fields.problems = []) ∧
      ((sectionItems root "methods").2 = [] ∧ (readSections header root).methods.problems = []) ∧
      ((sectionItems root "properties").2 = [] ∧
        (readSections header root).properties.problems = []) ∧
      (collectBodies (fullScope header root) (sectionItems root "methods").1
        (readSections header root).methods.kept).2 = [] := by
  simp only [readSections, List.append_eq_nil_iff, and_assoc]
  exact Iff.rfl

theorem fields_scoped :
    ((readSections header root).fields.values.map fun field => field.name).Nodup ∧
      ∀ field ∈ (readSections header root).fields.values,
        field.declaringType = header.selfType := by
  rw [readSections_fields]
  refine ⟨Section.nodup_keys _ (fun field : Field => field.name) (fun _ _ => rfl) _, ?_⟩
  intro field member
  obtain ⟨position, item, read⟩ := Section.exists_of_mem_values _ member
  exact readField_declaringType read

theorem methods_scoped :
    ((readSections header root).methods.values.map fun method => method.token).Nodup ∧
      ∀ method ∈ (readSections header root).methods.values,
        method.declaringType = header.selfType := by
  rw [readSections_methods]
  refine ⟨Section.nodup_keys _ (fun method : Method => method.token) (fun _ _ => rfl) _, ?_⟩
  intro method member
  obtain ⟨position, item, read⟩ := Section.exists_of_mem_values _ member
  exact (readMethod_declaringType read).2

theorem properties_scoped :
    ((readSections header root).properties.values.map fun property => property.name).Nodup ∧
      ∀ property ∈ (readSections header root).properties.values,
        property.declaringType = header.selfType ∧
          ∀ accessor, property.getter = some accessor ∨ property.setter = some accessor →
            (readSections header root).methods.values.filter
              (fun method => method.name == accessor.name) = [accessor] := by
  rw [readSections_properties]
  refine ⟨Section.nodup_keys _ (fun property : Property => property.name)
    (fun _ _ => rfl) _, ?_⟩
  intro property member
  obtain ⟨position, item, read⟩ := Section.exists_of_mem_values _ member
  exact readProperty_scoped read

/-- Without problems, the bodies are those of the methods that have one, under their tokens. -/
theorem mem_bodies_iff (fine : (readSections header root).problems = []) {token : Int} :
    (∃ body, (token, body) ∈ (readSections header root).bodies) ↔
      ∃ method ∈ (readSections header root).methods.values,
        method.token = token ∧ method.hasBody = true := by
  obtain ⟨_, _, _, noProblems⟩ := (problems_eq_nil_iff header root).mp fine
  rw [readSections_bodies]
  constructor
  · rintro ⟨body, member⟩
    obtain ⟨position, method, kept, same, found⟩ := mem_collectBodies_iff.mp member
    refine ⟨method, List.mem_map.mpr ⟨_, kept, rfl⟩, same, ?_⟩
    rw [readSections_methods] at kept
    exact (isSome_bodyAt_iff kept).mp (by rw [found]; rfl)
  · rintro ⟨method, member, same, hasBody⟩
    obtain ⟨⟨position, _⟩, kept, rfl⟩ := List.mem_map.mp member
    have known := kept
    rw [readSections_methods] at known
    -- a method that has a body gets a reading, which is no problem
    obtain ⟨reading, found⟩ := Option.isSome_iff_exists.mp ((isSome_bodyAt_iff known).mpr hasBody)
    obtain ⟨body, rfl⟩ := exists_body_of_no_problems noProblems kept found
    exact ⟨body, mem_collectBodies_iff.mpr ⟨position, _, kept, same, found⟩⟩

theorem bodyTokens_nodup : ((readSections header root).bodies.map Prod.fst).Nodup := by
  have tokens := (methods_scoped header root).1
  rw [Collected.values, List.map_map] at tokens
  rw [readSections_bodies]
  exact tokens_collectBodies_sublist.nodup tokens

/-- The body under the token of a method was read for this method. -/
theorem readBody_of_mem_bodies {method : Method} {body : Body}
    (known : method ∈ (readSections header root).methods.values)
    (member : (method.token, body) ∈ (readSections header root).bodies) :
    ∃ value path, readBody (fullScope header root) method value path = .ok body := by
  rw [readSections_bodies] at member
  obtain ⟨position, other, kept, same, found⟩ := mem_collectBodies_iff.mp member
  -- tokens are distinct, so the method that the body was read for is the one in question
  have listed : other ∈ (readSections header root).methods.values :=
    List.mem_map.mpr ⟨_, kept, rfl⟩
  obtain rfl : other = method :=
    List.inj_on_of_nodup_map (methods_scoped header root).1 listed known same
  exact readBody_of_bodyAt found

/-- It is well-scoped, and its variables are numbered in their order. -/
theorem bodies_scoped {method : Method} {body : Body}
    (known : method ∈ (readSections header root).methods.values)
    (member : (method.token, body) ∈ (readSections header root).bodies) :
    WellScopedBody (readSections header root).fields.values
      (readSections header root).methods.values method body ∧ Declared body.vars := by
  obtain ⟨_, _, read⟩ := readBody_of_mem_bodies header root known member
  exact readBody_wellScoped read

end Sections

/-- A dump that loads has a header, and its sections have no problems. -/
theorem load_eq_ok_iff {fileName : String} {document : Document} {dump : RecordDump} :
    load fileName document = .ok dump ↔
      document.isObject = true ∧ ∃ header, readHeader (document.get? "record") = .ok header ∧
        (readSections header document).problems = [] ∧
        dump = ⟨fileName,
          { header with
            fields := (readSections header document).fields.values
            properties := (readSections header document).properties.values
            methods := (readSections header document).methods.values },
          (readSections header document).bodies⟩ := by
  unfold load
  split
  next isObject =>
    split
    next problem refused => simp [refused]
    next header read =>
      dsimp only
      split
      next fine =>
        constructor
        · rintro ⟨⟩
          exact ⟨isObject, header, read, List.isEmpty_iff.mp fine, rfl⟩
        · rintro ⟨_, other, same, _, rfl⟩
          obtain rfl : header = other := by simpa [read] using same
          rfl
      next problems =>
        rw [List.isEmpty_iff] at problems
        simp [read, problems]
  next noObject => simp [noObject]

/-- Every dump that loads is well-scoped. -/
theorem load_wellScoped {fileName : String} {document : Document} {dump : RecordDump}
    (loaded : load fileName document = .ok dump) : dump.WellScoped := by
  obtain ⟨_, header, _, fine, rfl⟩ := load_eq_ok_iff.mp loaded
  obtain ⟨fieldNames, ofFields⟩ := fields_scoped header document
  obtain ⟨methodTokens, ofMethods⟩ := methods_scoped header document
  obtain ⟨propertyNames, ofProperties⟩ := properties_scoped header document
  exact {
    fieldNames, propertyNames, methodTokens, ofFields, ofMethods
    ofProperties := fun property member => (ofProperties property member).1
    accessors := fun property member => (ofProperties property member).2
    bodyTokens := bodyTokens_nodup header document
    hasBody := fun token => isSome_find?_iff.trans (mem_bodies_iff header document fine)
    bodies := fun method known body found =>
      (bodies_scoped header document known (mem_of_find? found)).1 }

/-! ### A dump of a record with one property -/

/-- A dump of `record Point(int X)`, as far as its property goes. -/
def pointDocument : Document :=
  .object [
    ("record", .object [("name", .string "Point")]),
    ("fields", .list [.object [
      ("name", .string "<X>k__BackingField"), ("type", .string "int")]]),
    ("methods", .list [.object [
      ("name", .string "get_X"), ("returnType", .string "int"),
      ("body", .object [("instructions", .list [.object [
        ("op", .string "leave"),
        ("value", .object [("op", .string "ldfld"), ("field", .string "<X>k__BackingField"),
          ("target", .string "ldthis")])]])])]]),
    ("properties", .list [.object [
      ("name", .string "X"), ("type", .string "int"), ("getter", .string "get_X")]])]

/-- What is loaded from it. -/
def pointDump : RecordDump :=
  let self : Ty := .named "" "Point" [] false
  let int : Ty := .named "System" "Int32" [] false
  let member (name : String) (token : Int) (accessibility : Accessibility) : Member :=
    ⟨name, token, self, false, accessibility, [], false⟩
  let field : Field :=
    { member "<X>k__BackingField" firstFieldToken .privateAccess with type := int }
  let getter : Method :=
    { member "get_X" firstMethodToken .publicAccess with
      parameters := [], returnType := int, returnAttributes := [], isVirtual := false
      isOverride := false, isSealed := false, isAbstract := false, isOperator := false
      hasBody := true }
  let this : Variable := ⟨0, .parameter, -1, "this", self⟩
  { fileName := "point.yaml"
    record :=
      { ns := "", name := "Point", typeParameters := [], baseType := none, interfaces := []
        fields := [field], methods := [getter]
        properties := [
          { member "X" firstPropertyToken .publicAccess with
            type := int, parameters := [], getter := some getter, setter := none
            isVirtual := false, isOverride := false, isSealed := false }] }
    bodies := [(firstMethodToken, ⟨[.leave .body (.loadField (.load this) field.toRef)], [this]⟩)] }

theorem load_pointDocument : load "point.yaml" pointDocument = .ok pointDump := by
  have int : Ty.parse? { typeParameters := [] } "int" =
      some (.named "System" "Int32" [] false) :=
    Ty.parseChars_builtin ⟨by decide, by decide, by decide⟩ "int" (by decide) rfl
  have noOperator : isOperatorName "get_X" = false := by decide
  simp [pointDocument, pointDump, load, readSections, sectionItems, fieldSection, methodSection,
    propertySection, Section.collect, Section.collectFrom, Collected.values,
    readHeader, readField, readMethod, readProperty, readMember, readAttributes, readType,
    readHasBody, readParameters, readAccessor, DumpScope.method, noOperator,
    Reading.type, int, Reading.object, Reading.string, Reading.string?, Reading.strings,
    Reading.list, Reading.each, Reading.integer?, Reading.flag, Reading.accessibility, Except.map,
    collectBodies, bodyAt, readBody, declareVariables, declareParameters, declareLocals, receiver,
    readInstr, Operation.ofName?, Operation.names, List.lookup_cons, readContainer, readOptional,
    readOperand, readOperands, readBare, readFieldRef, findVariable, DumpScope.field?,
    RecordHeader.selfType, Document.isObject, Document.get?, Document.find?]

theorem wellScoped_pointDump :
    load "point.yaml" pointDocument = .ok pointDump ∧ pointDump.WellScoped :=
  ⟨load_pointDocument, load_wellScoped load_pointDocument⟩

end Dump

end MemberOrigin
