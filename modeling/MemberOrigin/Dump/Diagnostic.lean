import MemberOrigin.Document.Path
import MemberOrigin.Member.Basic

/-!
# Diagnostics

What can be wrong with a dump. A `Problem` states the cause and the place; a `Diagnostic` is what
the user sees of it.
-/
namespace MemberOrigin

inductive Severity
  | error
  | warning
  | info
deriving Repr, DecidableEq, Inhabited

def Severity.word : Severity → String
  | error => "error"
  | warning => "warning"
  | info => "info"

/-- The kinds of diagnostics, by what they are about. -/
inductive DiagnosticCode
  | missingFile
  | unreadableFile
  | invalidText
  | invalidDocument
  | invalidRecord
  | invalidField
  | invalidMethod
  | invalidProperty
  | invalidType
  | unknownMember
  | unknownVariable
  | invalidInstruction
  | duplicateDeclaration
  | invalidBody
deriving Repr, DecidableEq, Inhabited

/-- The number that users know a kind of diagnostic by. -/
def DiagnosticCode.text : DiagnosticCode → String
  | missingFile => "RLN9001"
  | unreadableFile => "RLN9002"
  | invalidText => "RLN9003"
  | invalidDocument => "RLN9004"
  | invalidRecord => "RLN9005"
  | invalidField => "RLN9006"
  | invalidMethod => "RLN9007"
  | invalidProperty => "RLN9008"
  | invalidType => "RLN9009"
  | unknownMember => "RLN9010"
  | unknownVariable => "RLN9011"
  | invalidInstruction => "RLN9012"
  | duplicateDeclaration => "RLN9013"
  | invalidBody => "RLN9014"

/-- A message about a dump; the place is the file name and a path into its document. -/
structure Diagnostic where
  code : DiagnosticCode
  severity : Severity
  message : String
  place : Option (String × String) := none
  hint : Option String := none
deriving Repr, DecidableEq, Inhabited

/-- The diagnostic on one line. An empty hint is not shown. -/
def Diagnostic.format (diagnostic : Diagnostic) : String :=
  " ".intercalate <|
    (match diagnostic.place with
      | some (file, path) => [file ++ ":" ++ path]
      | none => [])
    ++ [diagnostic.severity.word ++ " " ++ diagnostic.code.text ++ ":", diagnostic.message]
    ++ match diagnostic.hint with
      | some hint => if hint.isEmpty then [] else ["Hint: " ++ hint]
      | none => []

/-- What is wrong at a place in a dump. -/
inductive Cause
  | unreadableText
  /-- The document is of this kind and not an object. -/
  | documentKind (kind : String)
  | notObject (what : String)
  | notString (key : String)
  | notBoolean (key : String)
  | notInteger (key : String)
  | notList (key : String)
  | notStrings (key got : String)
  | badAccessibility (got : String)
  | badType (text : String)
  | notClass (text : String)
  | badParameter
  | unknownMethod (name : String)
  | ambiguousMethod (name : String)
  | unknownField (name : String)
  | namelessMethod (reference : String)
  | unknownVariable (name : String) (declared : List String)
  | missingOperand (key : String)
  | needsOperands (operation : String)
  | badInstruction
  | badContainer (container : String)
  | fewOperands
  | badComparison (got : String)
  | needsText
  | needsInteger
  | unknownInstruction (operation : String)
  | emptyBody
  | duplicateVariable (name : String)
  | duplicateMember (name : String)
deriving Repr, DecidableEq, Inhabited

namespace Cause

def message : Cause → String
  | unreadableText => "Invalid YAML in dump file"
  | documentKind kind => "Dump document must be an object, got " ++ kind
  | notObject what => what ++ " must be an object"
  | notString key => "'" ++ key ++ "' must be a non-empty string"
  | notBoolean key => "'" ++ key ++ "' must be a boolean"
  | notInteger key => "'" ++ key ++ "' must be an integer"
  | notList key => "'" ++ key ++ "' must be a list"
  | notStrings key got => "'" ++ key ++ "' must contain strings. Got: " ++ got
  | badAccessibility got => "Invalid accessibility: " ++ got
  | badType text => "Invalid type string: " ++ text
  | notClass text => "Expected a class or interface: " ++ text
  | badParameter => "Parameter must be a type string or an object"
  | unknownMethod name => "Unknown method: " ++ name
  | ambiguousMethod name => "Ambiguous method reference: " ++ name
  | unknownField name => "Unknown field: " ++ name
  | namelessMethod reference => "Missing method name in reference: " ++ reference
  | unknownVariable name _ => "Unknown variable: " ++ name
  | missingOperand key => "Missing operand '" ++ key ++ "'"
  | needsOperands operation => "Instruction '" ++ operation ++ "' needs operands"
  | badInstruction => "Instruction must be an object or an op name"
  | badContainer container => "Invalid container: " ++ container
  | fewOperands => "logic.and needs at least two operands"
  | badComparison got => "Invalid comparison operator: " ++ got
  | needsText => "ldstr needs a string 'value'"
  | needsInteger => "ldc.i4 needs an integer 'value'"
  | unknownInstruction operation => "Unknown instruction: " ++ operation
  | emptyBody => "Method body has no instructions"
  | duplicateVariable name => "Duplicate variable: " ++ name
  | duplicateMember name => "Duplicate member declaration: " ++ name

def hint? : Cause → Option String
  | badAccessibility _ =>
    some ("Expected one of " ++ ", ".intercalate (Accessibility.all.map Accessibility.word))
  | ambiguousMethod _ =>
    some "Reference an overloaded method through an external 'Type::Name' reference"
  | unknownVariable _ declared => some ("Declared here: " ++ ", ".intercalate declared)
  | _ => none

end Cause

/-- A cause with its kind and its place in the document. -/
structure Problem where
  code : DiagnosticCode
  path : DocPath
  cause : Cause
deriving Repr, DecidableEq, Inhabited

/-- The diagnostic of a problem in a file. -/
def Problem.toDiagnostic (file : String) (problem : Problem) : Diagnostic :=
  { code := problem.code
    severity := .error
    message := problem.cause.message
    place := some (file, problem.path.text)
    hint := problem.cause.hint? }

end MemberOrigin
