import MemberOrigin.Cli.Args
import MemberOrigin.Cli.FilePath
import MemberOrigin.Document.Json

/-!
# Configuration

A configuration file sets defaults for the options of a command line. It is taken from the nearest
directory above the working directory that has one, unless the command line names it.
-/
namespace MemberOrigin.Cli

inductive OutputFormat
  | text
  | json
deriving Repr, DecidableEq, Inhabited

def OutputFormat.word : OutputFormat → String
  | text => "text"
  | json => "json"

def OutputFormat.ofWord? : String → Option OutputFormat
  | "text" => some text
  | "json" => some json
  | _ => none

/-- The settings of a configuration file, as far as they are given. -/
structure Config where
  schema : Option String := none
  format : Option OutputFormat := none
  onlyGenerated : Option Bool := none
  debugAssertions : Option Bool := none
  verbose : Option Bool := none
  quiet : Option Bool := none
deriving Repr, DecidableEq, Inhabited

/-- The settings of a run. -/
structure Settings where
  format : OutputFormat := .text
  onlyGenerated : Bool := false
  debugAssertions : Bool := false
  verbose : Bool := false
  quiet : Bool := false
deriving Repr, DecidableEq, Inhabited

namespace Config

def fileName : String := "recordlens.json"

/-- Why a configuration file is refused. -/
inductive Problem
  | missing (path : FilePath)
  | unreadable
  | notObject
  | badSchema
  | badFormat
  | notBoolean (key : String)
deriving Repr, DecidableEq, Inhabited

def Problem.message : Problem → String
  | missing path => "Config file not found: " ++ path.text
  | unreadable => "Failed to parse " ++ fileName
  | notObject => fileName ++ ": must be a JSON object"
  | badSchema => fileName ++ ": '$schema' must be a string"
  | badFormat => fileName ++ ": 'format' must be \"text\" or \"json\""
  | notBoolean key => fileName ++ ": '" ++ key ++ "' must be a boolean"

def readSchema (document : Document) : Except Problem (Option String) :=
  match document.get? "$schema" with
  | none => .ok none
  | some (.string text) => .ok (some text)
  | some _ => .error .badSchema

def readFormat (document : Document) : Except Problem (Option OutputFormat) :=
  match document.get? "format" with
  | none => .ok none
  | some (.string word) =>
    match OutputFormat.ofWord? word with
    | some format => .ok (some format)
    | none => .error .badFormat
  | some _ => .error .badFormat

def readFlag (document : Document) (key : String) : Except Problem (Option Bool) :=
  match document.get? key with
  | none => .ok none
  | some (.bool value) => .ok (some value)
  | some _ => .error (.notBoolean key)

/-- Checks a document and takes its settings; other keys do not matter. -/
def ofDocument (document : Document) : Except Problem Config :=
  if document.isObject then do
    let schema ← readSchema document
    let format ← readFormat document
    let onlyGenerated ← readFlag document "onlyGenerated"
    let debugAssertions ← readFlag document "debugAssertions"
    let verbose ← readFlag document "verbose"
    let quiet ← readFlag document "quiet"
    return { schema, format, onlyGenerated, debugAssertions, verbose, quiet }
  else .error .notObject

/-- Reads a configuration file. -/
def load (files : FileView) (path : FilePath) : Except Problem Config :=
  match files.find? path with
  | none => .error (.missing path)
  | some .unreadable => .error .unreadable
  | some (.file content) =>
    match Document.ofJson? content with
    | some document => ofDocument document
    | none => .error .unreadable

/-- The directories from the one of the given names, reversed, up to the root. -/
def ancestors : List String → List FilePath
  | [] => [.root]
  | name :: rest => ⟨(name :: rest).reverse⟩ :: ancestors rest

/-- The paths where a configuration file for a directory can be, the nearest one first. -/
def candidates (directory : FilePath) : List FilePath :=
  (ancestors directory.names.reverse).map fun path => path.child fileName

/-- The nearest configuration file: the one of the directory, or else that of its parent and so on,
up to the directory that is its own parent. -/
def find? (files : FileView) (directory : FilePath) : Option FilePath :=
  if files.contains (directory.child fileName) then some (directory.child fileName)
  else if directory.parent = directory then none
  else find? files directory.parent
termination_by directory.names.length
decreasing_by
  next moves => exact FilePath.length_parent_lt moves

/-- Options win over the configuration file, and being quiet wins over being verbose. -/
def resolve (config : Config) (options : Options) : Settings :=
  let quiet := (options.quiet <|> config.quiet).getD false
  { format := if options.json.getD false then .json else config.format.getD .text
    onlyGenerated := (options.onlyGenerated <|> config.onlyGenerated).getD false
    debugAssertions := (options.debugAssertions <|> config.debugAssertions).getD false
    verbose := !quiet && (options.verbose <|> config.verbose).getD false
    quiet }

end Config

end MemberOrigin.Cli
