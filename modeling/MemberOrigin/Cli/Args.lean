/-!
# Command-line arguments

The first two arguments that are no options are the command and the dump file. A config option
takes the argument behind it, whatever that is; empty arguments are skipped. Help and version
options end the reading.
-/
namespace MemberOrigin.Cli

/-- The options of a command line, as far as they are given. -/
structure Options where
  verbose : Option Bool := none
  quiet : Option Bool := none
  config : Option String := none
  json : Option Bool := none
  onlyGenerated : Option Bool := none
  debugAssertions : Option Bool := none
deriving Repr, DecidableEq, Inhabited

/-- A command line that is taken apart. -/
structure Arguments where
  /-- Empty without a command. -/
  command : String := ""
  dumpFile : Option String := none
  options : Options := {}
  unknown : List String := []
deriving Repr, DecidableEq, Inhabited

/-- What an argument is by its form alone. -/
inductive ArgumentKind
  | blank
  | positional
  | help
  | version
  | config
  | verbose
  | quiet
  | json
  | onlyGenerated
  | debugAssertions
  | unknown
deriving Repr, DecidableEq, Inhabited

/-- The spellings of the options. -/
def optionNames : List (String × ArgumentKind) :=
  [("-h", .help), ("--help", .help), ("-v", .version), ("--version", .version),
    ("-V", .verbose), ("--verbose", .verbose), ("-q", .quiet), ("--quiet", .quiet),
    ("-c", .config), ("--config", .config), ("--json", .json),
    ("--only-generated", .onlyGenerated), ("--debug-assertions", .debugAssertions)]

def ArgumentKind.of (argument : String) : ArgumentKind :=
  match argument.toList with
  | [] => .blank
  | '-' :: _ => (optionNames.lookup argument).getD .unknown
  | _ => .positional

namespace Arguments

/-- Adds an argument that is no option. -/
def addPositional (arguments : Arguments) (argument : String) : Arguments :=
  if arguments.command.isEmpty then { arguments with command := argument }
  else if arguments.dumpFile.isNone then { arguments with dumpFile := some argument }
  else { arguments with unknown := arguments.unknown ++ [argument] }

/-- Adds an argument that takes no value and does not end the reading. -/
def add (arguments : Arguments) (argument : String) : Arguments :=
  let options := arguments.options
  match ArgumentKind.of argument with
  | .blank | .help | .version | .config => arguments
  | .positional => arguments.addPositional argument
  | .verbose => { arguments with options := { options with verbose := some true } }
  | .quiet => { arguments with options := { options with quiet := some true } }
  | .json => { arguments with options := { options with json := some true } }
  | .onlyGenerated => { arguments with options := { options with onlyGenerated := some true } }
  | .debugAssertions => { arguments with options := { options with debugAssertions := some true } }
  | .unknown => { arguments with unknown := arguments.unknown ++ [argument] }

def setConfig (arguments : Arguments) (value : String) : Arguments :=
  { arguments with options := { arguments.options with config := some value } }

/-- Reads on from the arguments read so far. -/
def readFrom : Arguments → List String → Arguments
  | arguments, [] => arguments
  | arguments, [argument] =>
    match ArgumentKind.of argument with
    | .help => { command := "help" }
    | .version => { command := "version" }
    | .config => arguments.setConfig ""
    | _ => arguments.add argument
  | arguments, argument :: next :: rest =>
    match ArgumentKind.of argument with
    | .help => { command := "help" }
    | .version => { command := "version" }
    | .config => readFrom (arguments.setConfig next) rest
    | _ => readFrom (arguments.add argument) (next :: rest)

/-- Takes a command line apart. -/
def read (arguments : List String) : Arguments :=
  readFrom {} arguments

end Arguments

end MemberOrigin.Cli
