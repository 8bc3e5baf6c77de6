import MemberOrigin.Cli.Help
import MemberOrigin.Cli.Message
import MemberOrigin.Dump.Text
import MemberOrigin.Record.Report

/-!
# Runs of the program

A run takes a command line and the files it can see, and ends with an exit code and messages. It ends
otherwise if loading the dump throws, or with a defect of the analysis. The reader of dump texts is
handed in.
-/
namespace MemberOrigin.Cli

inductive ExitCode
  | ok
  | usage
  | loadFailed
  | cancelled
deriving Repr, DecidableEq, Inhabited

def ExitCode.number : ExitCode → Nat
  | ok => 0
  | usage => 1
  | loadFailed => 2
  | cancelled => 130

/-- How a run ends. -/
structure Outcome where
  exitCode : ExitCode
  messages : List Message
  settings : Settings := {}
deriving Repr, DecidableEq, Inhabited

/-- What a run shows, line by line. -/
def Outcome.lines (outcome : Outcome) : List (Channel × String) :=
  outcome.messages.filterMap (Message.line? outcome.settings)

/-- What leaves a run in place of an outcome. -/
inductive Escape
  | thrown (raised : Thrown)
  | defect (found : Defect)
deriving Repr, DecidableEq, Inhabited

def Escape.message : Escape → String
  | thrown raised => raised.message
  | defect found => found.message

/-- Where a run takes place. -/
structure Environment where
  directory : FilePath
  files : FileView
  cancelled : Option Cancellation := none

inductive Command
  | classify
  | inspect
deriving Repr, DecidableEq, Inhabited

def Command.word : Command → String
  | classify => "classify"
  | inspect => "inspect"

def Command.ofWord? (word : String) : Option Command :=
  [classify, inspect].find? (·.word == word)

def errors (texts : List String) : List Message :=
  texts.map (.log .error)

/-- A run that is refused before its command starts. -/
def refused (texts : List String) : Outcome :=
  { exitCode := .usage, messages := errors texts }

/-- Loads the dump at a path. -/
def loadDump (readText : String → Option DocGraph) (files : FileView) (path : FilePath) :
    Except Thrown (Except (List Diagnostic) RecordDump) :=
  match files.find? path with
  | none =>
    .ok (.error [{
      code := .missingFile
      severity := .error
      message := "Dump file not found: " ++ path.text }])
  | some .unreadable =>
    .ok (.error [{
      code := .unreadableFile
      severity := .error
      message := "Failed to read dump file" }])
  | some (.file content) =>
    (Dump.loadText readText path.fileName content).map fun loaded =>
      loaded.mapError fun problems => problems.map (Problem.toDiagnostic path.fileName)

/-- What a loaded dump is announced with. -/
def loadedText (dump : RecordDump) : String :=
  "Loaded " ++ dump.fileName ++ ": " ++ toString dump.record.fields.length ++ " fields, "
    ++ toString dump.record.properties.length ++ " properties, "
    ++ toString dump.record.methods.length ++ " methods ("
    ++ toString dump.bodies.length ++ " with bodies)"

/-- The messages of a command with its result; nothing if the run is cancelled. -/
structure Progress where
  messages : List Message
  result : Option String

/-- Classifies the members of a dump. -/
def classify (dump : RecordDump) (settings : Settings) (cancelled : Option Cancellation) :
    Except Defect Progress :=
  let host : Host := { bodies := dump.bodies, cancelled }
  match ((dump.record.classify settings.debugAssertions).run host).1 with
  | .ok report =>
    let shown := if settings.onlyGenerated then report.onlyGenerated else report
    .ok {
      messages := [.log .verbose ("Classified " ++ toString report.verdicts.length ++ " members of "
        ++ report.record ++ ": " ++ toString report.generatedCount ++ " generated")]
      result := some <|
        match settings.format with
        | .json => shown.toDocument.toJsonLines
        | .text => shown.text }
  | .error (.cancelled _) => .ok { messages := [], result := none }
  | .error (.defect defect) =>
    if cancelled.isSome then .ok { messages := [], result := none } else .error defect

/-- The names of the variables of a body. -/
def variablesText (body : Body) : String :=
  Report.orElse (", ".intercalate (body.vars.map fun v => v.name)) "(none)"

/-- What is shown of a method: a message, and its listing if it has a body. -/
def inspectMethod (dump : RecordDump) (method : Method) : Message × Option String :=
  match dump.bodies.find? method.token with
  | none => (.log .verbose ("Skipping " ++ method.name ++ ": no body"), none)
  | some body =>
    (.log .verbose (method.name ++ ": variables " ++ variablesText body),
      some (method.signature ++ "\n" ++ Text.indent "  " body.print))

/-- Lists the bodies of a dump. The run can be cancelled in front of each method. -/
def inspect (dump : RecordDump) (cancelled : Option Cancellation) : Progress :=
  if cancelled.isSome && !dump.record.methods.isEmpty then { messages := [], result := none }
  else
    let parts := dump.record.methods.map (inspectMethod dump)
    { messages := parts.map Prod.fst
      result := some ("\n\n".intercalate (parts.filterMap Prod.snd)) }

/-- Runs a command on the dump at a path. What is thrown ends a cancelled run like its
cancellation. -/
def runCommand (readText : String → Option DocGraph) (command : Command) (path : FilePath)
    (environment : Environment) (settings : Settings) (announced : List Message) :
    Except Escape Outcome :=
  let stopped (earlier : List Message) : Outcome :=
    { exitCode := .cancelled, messages := earlier ++ [.log .error "Cancelled"], settings }
  match loadDump readText environment.files path with
  | .error thrown =>
    if environment.cancelled.isSome then .ok (stopped announced) else .error (.thrown thrown)
  | .ok (.error diagnostics) =>
    .ok {
      exitCode := .loadFailed
      messages := announced
        ++ errors (("Failed to load " ++ path.text) :: diagnostics.map Diagnostic.format)
      settings }
  | .ok (.ok dump) => do
    let loaded := announced ++ [.log .verbose (loadedText dump)]
    let progress ← match command with
      | .classify => (classify dump settings environment.cancelled).mapError .defect
      | .inspect => .ok (inspect dump environment.cancelled)
    match progress.result with
    | some result =>
      return {
        exitCode := .ok
        messages := loaded ++ progress.messages ++ [.log .result result]
        settings }
    | none => return stopped (loaded ++ progress.messages)

/-- The configuration file of a run: the one the command line names, or the nearest one. -/
def configPath? (options : Options) (environment : Environment) : Option FilePath :=
  match options.config with
  | some text => some (environment.directory.resolve text)
  | none => Config.find? environment.files environment.directory

/-- The configuration of a run, and the message that tells where it is from. -/
def loadConfig (options : Options) (environment : Environment) :
    Except Config.Problem (Config × List Message) :=
  match configPath? options environment with
  | none => .ok ({}, [])
  | some path =>
    (Config.load environment.files path).map fun config =>
      (config, [.log .verbose ("Using config " ++ path.text)])

/-- Why a command line cannot be run with this command. -/
def usageErrors (command : Command) (arguments : Arguments) : Option (List String) :=
  if !arguments.unknown.isEmpty then
    some ["Unknown option '" ++ "', '".intercalate arguments.unknown ++ "'"]
  else if arguments.options.config == some "" then some ["--config requires a file path"]
  else if arguments.dumpFile.isNone then
    some ["Dump file required", "Usage: recordlens " ++ command.word ++ " <dump.yaml>"]
  else none

/-- Runs the program. -/
def run (readText : String → Option DocGraph) (commandLine : List String)
    (environment : Environment) : Except Escape Outcome :=
  let arguments := Arguments.read commandLine
  if arguments.command == "version" then
    .ok { exitCode := .ok, messages := [.page versionPage] }
  else if arguments.command == "help" || arguments.command.isEmpty then
    .ok { exitCode := .ok, messages := [.page helpPage] }
  else match Command.ofWord? arguments.command with
    | none =>
      .ok (refused ["Unknown command '" ++ arguments.command ++ "'",
        "Run 'recordlens --help' for usage information"])
    | some command =>
      match usageErrors command arguments with
      | some texts => .ok (refused texts)
      | none =>
        match loadConfig arguments.options environment with
        | .error problem => .ok (refused [problem.message])
        | .ok (config, announced) =>
          runCommand readText command
            (environment.directory.resolve (arguments.dumpFile.getD "")) environment
            (config.resolve arguments.options) announced

/-- The paths that a run can look at: the dump and the places of a configuration file. -/
def consulted (commandLine : List String) (directory : FilePath) : List FilePath :=
  let arguments := Arguments.read commandLine
  let configs := match arguments.options.config with
    | some text => [directory.resolve text]
    | none => Config.candidates directory
  arguments.dumpFile.toList.map directory.resolve ++ configs

end MemberOrigin.Cli
