import MemberOrigin.Dump.Bodies
import MemberOrigin.Dump.Section
import MemberOrigin.Record.Query

/-!
# Loading dumps

A dump holds one record type and the bodies of its methods. It loads only if nothing is wrong with
it; otherwise all its problems are reported, section by section: fields, methods, properties, and
then the bodies in the order of their methods.
-/
namespace MemberOrigin

/-- A record type with the bodies of its methods, by token. -/
structure RecordDump where
  fileName : String
  record : RecordType
  bodies : Bodies
deriving Inhabited

namespace Dump

def duplicate (path : DocPath) (name : String) : Problem :=
  ⟨.duplicateDeclaration, path, .duplicateMember name⟩

/-- Fields, told apart by name. -/
def fieldSection (scope : DumpScope) : Section Field where
  read := readField scope
  clashes field other := field.name == other.name
  clash position field := duplicate ((DocPath.root.key "fields").index position) field.name

/-- Methods, told apart by token. -/
def methodSection (scope : DumpScope) : Section Method where
  read := readMethod scope
  clashes method other := method.token == other.token
  clash position method :=
    duplicate (((DocPath.root.key "methods").index position).key "token")
      ("token 0x" ++ Number.hex method.token)

/-- Properties, told apart by name. -/
def propertySection (scope : DumpScope) : Section Property where
  read := readProperty scope
  clashes property other := property.name == other.name
  clash position property :=
    duplicate ((DocPath.root.key "properties").index position) property.name

/-- The body of the method at a position of a list of entries, if it has one. -/
def bodyAt (scope : DumpScope) (items : List Document) (position : Nat) (method : Method) :
    Option (Reading Body) :=
  match items[position]? with
  | some node =>
    if method.hasBody && node.isObject then
      some (readBody scope method ((node.get? "body").getD .null)
        (((DocPath.root.key "methods").index position).key "body"))
    else none
  | none => none

/-- Reads the bodies of methods, each on its own. -/
def collectBodies (scope : DumpScope) (items : List Document) :
    List (Nat × Method) → Bodies × List Problem
  | [] => ([], [])
  | (position, method) :: rest =>
    let (bodies, problems) := collectBodies scope items rest
    match bodyAt scope items position method with
    | none => (bodies, problems)
    | some (.ok body) => ((method.token, body) :: bodies, problems)
    | some (.error problem) => (bodies, problem :: problems)

/-- What the sections of a dump hold, as far as they can be read. -/
structure Sections where
  fields : Collected Field
  methods : Collected Method
  properties : Collected Property
  bodies : Bodies
  problems : List Problem

/-- Reads the sections below a header. Accessors and bodies see the methods and fields that were
kept. -/
def readSections (header : RecordHeader) (root : Document) : Sections :=
  let scope : DumpScope := { selfType := header.selfType, typeParameters := header.typeParameters }
  let (fieldItems, fieldProblems) := sectionItems root "fields"
  let fields := (fieldSection scope).collect fieldItems
  let (methodItems, methodProblems) := sectionItems root "methods"
  let methods := (methodSection scope).collect methodItems
  -- from here on declarations may refer to fields and methods
  let scope := { scope with fields := fields.values, methods := methods.values }
  let (propertyItems, propertyProblems) := sectionItems root "properties"
  let properties := (propertySection scope).collect propertyItems
  let (bodies, bodyProblems) := collectBodies scope methodItems methods.kept
  { fields, methods, properties, bodies
    problems := fieldProblems ++ fields.problems ++ methodProblems ++ methods.problems
      ++ propertyProblems ++ properties.problems ++ bodyProblems }

/-- The kind of a document that is no object. Nothing counts as an object without entries. -/
def kindName : Document → String
  | .null => "object"
  | .bool _ => "boolean"
  | .number _ => "number"
  | .string _ => "string"
  | .list _ => "array"
  | .object _ => "object"

/-- Loads a dump from its document, or gives all its problems. -/
def load (fileName : String) (document : Document) : Except (List Problem) RecordDump :=
  if document.isObject then
    match readHeader (document.get? "record") with
    | .error problem => .error [problem]
    | .ok header =>
      let sections := readSections header document
      if sections.problems.isEmpty then
        .ok {
          fileName
          record := {
            header with
            fields := sections.fields.values
            properties := sections.properties.values
            methods := sections.methods.values }
          bodies := sections.bodies }
      else .error sections.problems
  else .error [⟨.invalidDocument, .root, .documentKind (kindName document)⟩]

end Dump

namespace RecordDump

/-- The scope in which bodies of this dump are read. -/
def scope (dump : RecordDump) : DumpScope :=
  { selfType := dump.record.selfType
    typeParameters := dump.record.typeParameters
    fields := dump.record.fields
    methods := dump.record.methods }

end RecordDump

end MemberOrigin
