import MemberOrigin.Dump.Diagnostic
import MemberOrigin.Document.Json
import MemberOrigin.Ty.Parse

/-!
# Reading nodes of a dump

Access to the entries of an object by key and expected form. The first entry that has another form
is the problem of its object. An entry that is missing or null stands for its default.
-/
namespace MemberOrigin

/-- What is read of a node, or what is wrong with it. -/
abbrev Reading (α : Type) := Except Problem α

namespace Reading

/-- Refuses what stands at a path. -/
def refuse {α : Type} (code : DiagnosticCode) (path : DocPath) (cause : Cause) : Reading α :=
  .error ⟨code, path, cause⟩

/-- An object, whose entries are then read. -/
def object (value : Document) (path : DocPath) (code : DiagnosticCode) (what : String) :
    Reading Document :=
  if value.isObject then .ok value else refuse code path (.notObject what)

/-- A non-empty string. -/
def string (node : Document) (key : String) (path : DocPath) (code : DiagnosticCode) :
    Reading String :=
  match node.get? key with
  | some (.string text) =>
    if text.isEmpty then refuse code (path.key key) (.notString key) else .ok text
  | _ => refuse code (path.key key) (.notString key)

/-- A non-empty string, if the entry is there. -/
def string? (node : Document) (key : String) (path : DocPath) (code : DiagnosticCode) :
    Reading (Option String) :=
  match node.get? key with
  | none | some .null => .ok none
  | some _ => (string node key path code).map some

/-- A truth value; false by default. -/
def flag (node : Document) (key : String) (path : DocPath) (code : DiagnosticCode) :
    Reading Bool :=
  match node.get? key with
  | none | some .null => .ok false
  | some (.bool value) => .ok value
  | some _ => refuse code (path.key key) (.notBoolean key)

/-- A whole number, if the entry is there. -/
def integer? (node : Document) (key : String) (path : DocPath) (code : DiagnosticCode) :
    Reading (Option Int) :=
  match node.get? key with
  | none | some .null => .ok none
  | some (.number (.integer value)) => .ok (some value)
  | some _ => refuse code (path.key key) (.notInteger key)

/-- A list; empty by default. -/
def list (node : Document) (key : String) (path : DocPath) (code : DiagnosticCode) :
    Reading (List Document) :=
  match node.get? key with
  | none | some .null => .ok []
  | some (.list items) => .ok items
  | some _ => refuse code (path.key key) (.notList key)

/-- Reads the items of a list in order, each with its position, up to the first problem. -/
def each {α β : Type} (read : Nat → α → Reading β) : Nat → List α → Reading (List β)
  | _, [] => .ok []
  | position, item :: rest => do
    let first ← read position item
    let others ← each read (position + 1) rest
    return first :: others

/-- A list of strings; empty by default. -/
def strings (node : Document) (key : String) (path : DocPath) (code : DiagnosticCode) :
    Reading (List String) := do
  let items ← list node key path code
  each (fun position item =>
    match item with
    | .string text => .ok text
    | other => refuse code ((path.key key).index position) (.notStrings key other.toJson)) 0 items

/-- An accessibility, by its word. -/
def accessibility (node : Document) (path : DocPath) (code : DiagnosticCode)
    (default : Accessibility) : Reading Accessibility :=
  match node.get? "accessibility" with
  | none | some .null => .ok default
  | some value =>
    let read? := match value with
      | .string word => Accessibility.ofWord? word
      | _ => none
    match read? with
    | some accessibility => .ok accessibility
    | none => refuse code (path.key "accessibility") (.badAccessibility value.toJson)

/-- A type string over the type parameters of the record. -/
def type (text : String) (path : DocPath) (typeParameters : List String) : Reading Ty :=
  match Ty.parse? { typeParameters } text with
  | some type => .ok type
  | none => refuse .invalidType path (.badType text)

/-- A type string that names a class or an interface. -/
def namedType (text : String) (path : DocPath) (typeParameters : List String) : Reading Ty := do
  match ← type text path typeParameters with
  | .named ns name args nullable => return .named ns name args nullable
  | _ => refuse .invalidType path (.notClass text)

end Reading

end MemberOrigin
