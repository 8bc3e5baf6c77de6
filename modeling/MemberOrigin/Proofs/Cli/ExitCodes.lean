import Mathlib.Tactic.Choose
import MemberOrigin.Cli.Run
import MemberOrigin.Proofs.Classification.Rearrangement
import MemberOrigin.Proofs.Document.Circular

/-!
# Exit codes of the program

## Main result

`run_disciplined`: whatever the reader of dump texts, the command line and the files are, a run ends
with an exit code, and its errors, its result and its exit code fit together. The one exception is a
dump with a value that is a part of itself: loading it can throw, and that leaves the run. No run ends
with a defect.

## Proof strategy

`RunsTo` lists the ways in which a run can end, with all that is known about the arguments, the
configuration and the dump. Two parts of a run could end otherwise. A classification over a loaded dump
has a report (`Dump.exists_report`), and what the loader throws comes from a value that is a part of
itself (`Dump.circular_of_loadText`). The discipline is then read off each way to end.
-/
namespace MemberOrigin

namespace Dump

/-! ### Loading from a text -/

theorem exists_document_of_loadGraph {fileName : String} {graph : DocGraph} {dump : RecordDump}
    (loaded : loadGraph fileName graph = .ok (.ok dump)) :
    ∃ document, load fileName document = .ok dump := by
  unfold loadGraph at loaded
  split at loaded
  next document _ => exact ⟨document, Except.ok.inj loaded⟩
  next =>
    -- a value that is cut off is still read like a document
    dsimp only at loaded
    split at loaded
    next cutLoaded => exact ⟨_, cutLoaded.trans (Except.ok.inj loaded)⟩
    next => split at loaded <;> cases loaded

theorem circular_of_loadGraph {fileName : String} {graph : DocGraph} {thrown : Thrown}
    (threw : loadGraph fileName graph = .error thrown) : graph.Circular := by
  unfold loadGraph at threw
  split at threw
  next => cases threw
  next noDocument => exact DocGraph.circular_of_document noDocument

theorem exists_document_of_loadText {readText : String → Option DocGraph} {fileName text : String}
    {dump : RecordDump} (loaded : loadText readText fileName text = .ok (.ok dump)) :
    ∃ document, load fileName document = .ok dump := by
  unfold loadText at loaded
  split at loaded
  next => exact exists_document_of_loadGraph loaded
  next => cases loaded

theorem circular_of_loadText {readText : String → Option DocGraph} {fileName text : String}
    {thrown : Thrown} (threw : loadText readText fileName text = .error thrown) :
    ∃ graph, readText text = some graph ∧ graph.Circular := by
  unfold loadText at threw
  split at threw
  next graph read => exact ⟨graph, read, circular_of_loadGraph threw⟩
  next => cases threw

/-! ### Classifying a loaded dump -/

/-- The members of a loaded record can be classified. -/
theorem exists_report {fileName : String} {document : Document} {dump : RecordDump}
    (loaded : load fileName document = .ok dump) (checked : Bool) :
    ∃ report, (dump.record.classify checked).eval dump.bodies.ofMethod = .ok report := by
  -- every inquiry about the record has an answer, and the report is made of these answers
  obtain ⟨analysis, built⟩ := exists_analysis loaded checked
  have ofRecord := (of_build loaded built).1
  choose! verdict answered using fun inquiry (known : Inquiry.IsAbout dump.record inquiry) =>
    exists_verdict loaded analysis known
  exact ⟨_, Analysis.eval_classify built ofRecord answered⟩

end Dump

namespace Cli

variable {readText : String → Option DocGraph}

/-! ### Messages of a command -/

def Message.isError : Message → Bool
  | .log .error _ => true
  | _ => false

def Message.isResult : Message → Bool
  | .log .result _ => true
  | _ => false

theorem any_isError_errors {texts : List String} (given : texts ≠ []) :
    (errors texts).any Message.isError = true := by
  cases texts with
  | nil => exact absurd rfl given
  | cons text rest => rfl

theorem countP_isResult_errors (texts : List String) :
    (errors texts).countP Message.isResult = 0 := by
  simp [errors, Message.isResult]

/-- Messages that are neither an error nor a result. -/
def Quiet (messages : List Message) : Prop :=
  ∀ message ∈ messages, ∃ text, message = .log .verbose text

theorem Quiet.nil : Quiet [] := by
  simp [Quiet]

theorem Quiet.single (text : String) : Quiet [.log .verbose text] := by
  simp [Quiet]

theorem Quiet.append {front back : List Message} (first : Quiet front) (second : Quiet back) :
    Quiet (front ++ back) :=
  List.forall_mem_append.mpr ⟨first, second⟩

theorem Quiet.any_isError {messages : List Message} (quiet : Quiet messages) :
    messages.any Message.isError = false := by
  rw [List.any_eq_false]
  intro message member
  obtain ⟨text, rfl⟩ := quiet message member
  simp [Message.isError]

theorem Quiet.countP_isResult {messages : List Message} (quiet : Quiet messages) :
    messages.countP Message.isResult = 0 := by
  rw [List.countP_eq_zero]
  intro message member
  obtain ⟨text, rfl⟩ := quiet message member
  simp [Message.isResult]

theorem inspect_quiet (dump : RecordDump) (cancelled : Option Cancellation) :
    Quiet (inspect dump cancelled).messages := by
  unfold inspect
  split
  · exact .nil
  · intro message member
    simp only [List.map_map, List.mem_map] at member
    obtain ⟨method, _, rfl⟩ := member
    simp only [Function.comp_apply, inspectMethod]
    split <;> exact ⟨_, rfl⟩

/-- Only a cancelled listing has no result. -/
theorem cancelled_of_inspect {dump : RecordDump} {cancelled : Option Cancellation}
    (none : (inspect dump cancelled).result = none) : cancelled.isSome = true := by
  unfold inspect at none
  split at none
  next stopped =>
    simp only [Bool.and_eq_true] at stopped
    exact stopped.1
  · cases none

/-- What a command on a dump gives: quiet messages, and a result unless the run is cancelled. -/
structure Progress.Fits (progress : Progress) (cancelled : Option Cancellation) : Prop where
  quiet : Quiet progress.messages
  stopped : progress.result = none → cancelled.isSome = true

theorem exists_classify {fileName : String} {document : Document} {dump : RecordDump}
    (loaded : Dump.load fileName document = .ok dump) (settings : Settings)
    (cancelled : Option Cancellation) :
    ∃ progress, classify dump settings cancelled = .ok progress ∧ progress.Fits cancelled := by
  let host : Host := { bodies := dump.bodies, cancelled }
  obtain ⟨report, reported⟩ := Dump.exists_report loaded settings.debugAssertions
  -- the host can be stopped by nothing but the cancellation that is in force from the start
  have serves : host.Serves dump.bodies cancelled := ⟨rfl, fun _ same => same, by simp [host]⟩
  obtain ⟨servesAfter, ends⟩ := (dump.record.classify settings.debugAssertions).run_endsWith serves
  have ending : (dump.record.classify settings.debugAssertions).ending dump.bodies =
      .ok report := by
    simp [Query.ending, reported, Except.mapError]
  rw [ending] at ends
  unfold classify
  dsimp only
  change EndsWith (.ok report) ((dump.record.classify settings.debugAssertions).run host) at ends
  generalize (dump.record.classify settings.debugAssertions).run host = outcome
    at servesAfter ends
  -- the defect branch is out: what does not report was stopped
  cases ends with
  | same => exact ⟨_, rfl, .single _, fun none => by cases none⟩
  | stopped inForce =>
    have threatened := servesAfter.cancelled _ inForce
    exact ⟨_, rfl, .nil, fun _ => by rw [threatened, Option.isSome_some]⟩

/-! ### Loading a dump -/

theorem exists_document {files : FileView} {path : FilePath} {dump : RecordDump}
    (loaded : loadDump readText files path = .ok (.ok dump)) :
    ∃ fileName document, Dump.load fileName document = .ok dump := by
  simp only [loadDump] at loaded
  split at loaded
  next => cases loaded
  next => cases loaded
  next content _ =>
    cases ofText : Dump.loadText readText path.fileName content with
    | error thrown =>
      rw [ofText] at loaded
      cases loaded
    | ok result =>
      rw [ofText] at loaded
      cases result with
      | error problems => cases loaded
      | ok loadedDump =>
        cases loaded
        exact ⟨_, Dump.exists_document_of_loadText ofText⟩

/-- What is thrown while a dump is loaded comes from a value in its file that is a part of itself. -/
theorem exists_circular_of_loadDump {files : FileView} {path : FilePath} {thrown : Thrown}
    (threw : loadDump readText files path = .error thrown) :
    ∃ content graph, files.find? path = some (.file content) ∧ readText content = some graph ∧
      graph.Circular := by
  simp only [loadDump] at threw
  split at threw
  next => cases threw
  next => cases threw
  next content found =>
    cases ofText : Dump.loadText readText path.fileName content with
    | error raised =>
      obtain ⟨graph, read, circular⟩ := Dump.circular_of_loadText ofText
      exact ⟨content, graph, found, read, circular⟩
    | ok result =>
      rw [ofText] at threw
      cases threw

/-- What a command does with a loaded dump. -/
def Command.progress (command : Command) (dump : RecordDump) (settings : Settings)
    (cancelled : Option Cancellation) : Except Defect Progress :=
  match command with
  | .classify => Cli.classify dump settings cancelled
  | .inspect => .ok (Cli.inspect dump cancelled)

theorem exists_progress {dump : RecordDump} {files : FileView} {path : FilePath}
    (loaded : loadDump readText files path = .ok (.ok dump)) (command : Command) (settings : Settings)
    (cancelled : Option Cancellation) :
    ∃ progress, command.progress dump settings cancelled = .ok progress ∧
      progress.Fits cancelled := by
  obtain ⟨fileName, document, ofDocument⟩ := exists_document loaded
  cases command with
  | classify => exact exists_classify ofDocument settings cancelled
  | inspect => exact ⟨_, rfl, inspect_quiet dump cancelled, cancelled_of_inspect⟩

/-- How a run ends behind its command. -/
def Progress.outcome (progress : Progress) (earlier : List Message) (settings : Settings) :
    Outcome :=
  match progress.result with
  | some result =>
    { exitCode := .ok
      messages := earlier ++ progress.messages ++ [.log .result result]
      settings }
  | none =>
    { exitCode := .cancelled
      messages := earlier ++ progress.messages ++ [.log .error "Cancelled"]
      settings }

theorem runCommand_of_loaded {command : Command} {path : FilePath} {environment : Environment}
    {settings : Settings} {announced : List Message} {dump : RecordDump} {progress : Progress}
    (loaded : loadDump readText environment.files path = .ok (.ok dump))
    (done : command.progress dump settings environment.cancelled = .ok progress) :
    runCommand readText command path environment settings announced =
      .ok (progress.outcome (announced ++ [.log .verbose (loadedText dump)]) settings) := by
  simp only [runCommand, loaded, Progress.outcome]
  cases command with
  | classify =>
    simp only [Command.progress] at done
    rw [done]
    cases ended : progress.result <;>
      simp [bind, Except.bind, Except.mapError, ended, pure, Except.pure]
  | inspect =>
    cases done
    cases ended : (inspect dump environment.cancelled).result <;>
      simp [bind, Except.bind, ended, pure, Except.pure]

/-! ### Accepted command lines -/

/-- The configuration file of the run, if there is one, can be used. -/
def Configured (options : Options) (environment : Environment) : Prop :=
  ∀ file, configPath? options environment = some file →
    ∃ config, Config.load environment.files file = .ok config

/-- The arguments name a command and a dump at the path, and the configuration can be used. -/
structure Accepted (commandLine : List String) (environment : Environment) (path : FilePath) :
    Prop where
  command : (Arguments.read commandLine).command ∈ ["classify", "inspect"]
  known : (Arguments.read commandLine).unknown = []
  named : (Arguments.read commandLine).options.config ≠ some ""
  dump : ∃ text, (Arguments.read commandLine).dumpFile = some text ∧
    environment.directory.resolve text = path
  configured : Configured (Arguments.read commandLine).options environment

theorem Accepted.path_unique {commandLine : List String} {environment : Environment}
    {path other : FilePath} (first : Accepted commandLine environment path)
    (second : Accepted commandLine environment other) : path = other := by
  obtain ⟨text, given, rfl⟩ := first.dump
  obtain ⟨text', given', rfl⟩ := second.dump
  cases given.symm.trans given'
  rfl

theorem ofWord?_eq_none_iff {word : String} :
    Command.ofWord? word = none ↔ word ∉ ["classify", "inspect"] := by
  simp only [Command.ofWord?, List.find?_eq_none, List.mem_cons, List.not_mem_nil, or_false,
    forall_eq_or_imp, forall_eq, Command.word, beq_iff_eq, not_or]
  exact and_congr (not_congr eq_comm) (not_congr eq_comm)

theorem usageErrors_eq_none_iff {command : Command} {arguments : Arguments} :
    usageErrors command arguments = none ↔ arguments.unknown = [] ∧
      arguments.options.config ≠ some "" ∧ ∃ text, arguments.dumpFile = some text := by
  -- the three checks in their order; each failing one settles both sides
  unfold usageErrors
  split
  next unknown =>
    have listed : arguments.unknown ≠ [] := by simpa using unknown
    simp [listed]
  next known =>
    have none : arguments.unknown = [] := by simpa using known
    split
    next unnamed =>
      have empty : arguments.options.config = some "" := by simpa using unnamed
      simp [empty]
    next named =>
      have some : arguments.options.config ≠ some "" := by simpa using named
      cases dump : arguments.dumpFile <;> simp [none, some]

theorem ne_nil_of_usageErrors {command : Command} {arguments : Arguments} {texts : List String}
    (found : usageErrors command arguments = some texts) : texts ≠ [] := by
  unfold usageErrors at found
  rintro rfl
  repeat (split at found; cases found)
  cases found

/-! ### How a run can end -/

/-- The ways in which a run can end. -/
inductive RunsTo (readText : String → Option DocGraph) (commandLine : List String)
    (environment : Environment) : Except Escape Outcome → Prop
  | page (text : String)
      (noCommand : (Arguments.read commandLine).command ∉ ["classify", "inspect"]) :
      RunsTo readText commandLine environment (.ok { exitCode := .ok, messages := [.page text] })
  | refused {texts : List String} (given : texts ≠ [])
      (notAccepted : ∀ path, ¬ Accepted commandLine environment path) :
      RunsTo readText commandLine environment (.ok (refused texts))
  | loadFailed {path : FilePath} {diagnostics : List Diagnostic} {announced : List Message}
      {texts : List String} {settings : Settings} (accepted : Accepted commandLine environment path)
      (failed : loadDump readText environment.files path = .ok (.error diagnostics))
      (quiet : Quiet announced) (given : texts ≠ []) :
      RunsTo readText commandLine environment
        (.ok { exitCode := .loadFailed, messages := announced ++ errors texts, settings })
  | finished {path : FilePath} {dump : RecordDump} {announced : List Message} {result : String}
      {settings : Settings} (accepted : Accepted commandLine environment path)
      (loaded : loadDump readText environment.files path = .ok (.ok dump))
      (quiet : Quiet announced) :
      RunsTo readText commandLine environment
        (.ok { exitCode := .ok, messages := announced ++ [.log .result result], settings })
  /-- The dump has loaded, or loading it has thrown. -/
  | cancelled {path : FilePath} {announced : List Message} {settings : Settings}
      (accepted : Accepted commandLine environment path)
      (unreported : ∀ diagnostics,
        loadDump readText environment.files path ≠ .ok (.error diagnostics))
      (quiet : Quiet announced) (stopped : environment.cancelled.isSome = true) :
      RunsTo readText commandLine environment
        (.ok {
          exitCode := .cancelled
          messages := announced ++ [.log .error "Cancelled"]
          settings })
  | threw {path : FilePath} {thrown : Thrown} (accepted : Accepted commandLine environment path)
      (raised : loadDump readText environment.files path = .error thrown)
      (free : environment.cancelled = none) :
      RunsTo readText commandLine environment (.error (.thrown thrown))

theorem runsTo_runCommand {commandLine : List String} {environment : Environment} {path : FilePath}
    (accepted : Accepted commandLine environment path) (command : Command) (settings : Settings)
    {announced : List Message} (quiet : Quiet announced) :
    RunsTo readText commandLine environment
      (runCommand readText command path environment settings announced) := by
  cases loads : loadDump readText environment.files path with
  | error thrown =>
    simp only [runCommand, loads]
    split
    next stopped =>
      exact .cancelled accepted (by simp [loads]) quiet stopped
    next free => exact .threw accepted loads (Option.not_isSome_iff_eq_none.mp free)
  | ok result =>
    cases result with
    | error diagnostics =>
      simp only [runCommand, loads]
      exact .loadFailed accepted loads quiet (by simp)
    | ok dump =>
      obtain ⟨progress, done, fits⟩ :=
        exists_progress loads command settings environment.cancelled
      have quietAll := (quiet.append (.single (loadedText dump))).append fits.quiet
      -- a command that starts either ends with a result, or it was cancelled on the way
      rw [runCommand_of_loaded loads done]
      unfold Progress.outcome
      split
      next => exact .finished accepted loads quietAll
      next none =>
        exact .cancelled accepted (by simp [loads]) quietAll (fits.stopped none)

/-- A configuration is loaded if its file can be used, and only the place of the file is told. -/
theorem loadConfig_cases (options : Options) (environment : Environment) :
    (∃ config announced, loadConfig options environment = .ok (config, announced) ∧
      Quiet announced ∧ Configured options environment) ∨
    ∃ problem, loadConfig options environment = .error problem ∧
      ¬ Configured options environment := by
  unfold loadConfig Configured
  -- only a configuration that is named or found has to be usable
  split
  next absent =>
    refine Or.inl ⟨_, _, rfl, .nil, fun file found => ?_⟩
    cases absent.symm.trans found
  next path meant =>
    cases read : Config.load environment.files path with
    | ok config =>
      refine Or.inl ⟨_, _, rfl, .single _, fun file found => ?_⟩
      cases meant.symm.trans found
      exact ⟨config, read⟩
    | error problem =>
      refine Or.inr ⟨problem, rfl, fun configured => ?_⟩
      obtain ⟨config, loaded⟩ := configured path meant
      cases read.symm.trans loaded

/-- Every run ends in one of these ways, and none with a defect. -/
theorem runsTo_run (readText : String → Option DocGraph) (commandLine : List String)
    (environment : Environment) :
    RunsTo readText commandLine environment (run readText commandLine environment) := by
  -- the order of the cases is the precedence of the checks: page, command, usage, configuration
  unfold run
  dsimp only
  split
  next version =>
    refine .page _ ?_
    rw [beq_iff_eq.mp version]
    decide
  split
  next help =>
    simp only [Bool.or_eq_true, beq_iff_eq, String.isEmpty_iff] at help
    refine .page _ ?_
    rcases help with help | none
    · rw [help]
      decide
    · rw [none]
      decide
  split
  next unknown =>
    refine .refused (by simp) fun path accepted => ?_
    exact ofWord?_eq_none_iff.mp unknown accepted.command
  next command named =>
    split
    next texts wrong =>
      refine .refused (ne_nil_of_usageErrors wrong) fun path accepted => ?_
      obtain ⟨text, given, -⟩ := accepted.dump
      have right : usageErrors command (Arguments.read commandLine) = none :=
        usageErrors_eq_none_iff.mpr ⟨accepted.known, accepted.named, text, given⟩
      cases right.symm.trans wrong
    next right =>
      obtain ⟨known, filled, text, given⟩ := usageErrors_eq_none_iff.mp right
      have isCommand : (Arguments.read commandLine).command ∈ ["classify", "inspect"] := by
        by_contra other
        cases (ofWord?_eq_none_iff.mpr other).symm.trans named
      rcases loadConfig_cases (Arguments.read commandLine).options environment with
        ⟨config, announced, loaded, quiet, configured⟩ | ⟨problem, failed, unusable⟩
      · rw [loaded, given]
        exact runsTo_runCommand ⟨isCommand, known, filled, ⟨text, given, rfl⟩, configured⟩ command
          _ quiet
      · rw [failed]
        exact .refused (by simp) fun path accepted => unusable accepted.configured

/-! ### Main theorem -/

namespace RunsTo

variable {commandLine : List String} {environment : Environment} {outcome : Outcome}

theorem number_mem (runsTo : RunsTo readText commandLine environment (.ok outcome)) :
    outcome.exitCode.number ∈ [0, 1, 2, 130] := by
  cases runsTo <;> simp [ExitCode.number, Cli.refused]

theorem any_isError_iff (runsTo : RunsTo readText commandLine environment (.ok outcome)) :
    outcome.messages.any Message.isError = true ↔ outcome.exitCode.number ≠ 0 := by
  cases runsTo with
  | page => simp [Message.isError, ExitCode.number]
  | refused given =>
    exact iff_of_true (any_isError_errors given) (by simp [Cli.refused, ExitCode.number])
  | loadFailed _ _ _ given => simp [any_isError_errors given, ExitCode.number]
  | finished _ _ quiet => simp [quiet.any_isError, Message.isError, ExitCode.number]
  | cancelled => simp [Message.isError, ExitCode.number]

theorem countP_isResult (runsTo : RunsTo readText commandLine environment (.ok outcome)) :
    outcome.messages.countP Message.isResult =
      if outcome.exitCode.number = 0 ∧
        (Arguments.read commandLine).command ∈ ["classify", "inspect"] then 1 else 0 := by
  cases runsTo with
  | page _ noCommand =>
    rw [if_neg fun both => noCommand both.2]
    rfl
  | refused => exact countP_isResult_errors _
  | loadFailed _ _ quiet =>
    rw [List.countP_append, quiet.countP_isResult, countP_isResult_errors]
    rfl
  | finished accepted _ quiet =>
    rw [List.countP_append, quiet.countP_isResult, if_pos ⟨rfl, accepted.command⟩]
    rfl
  | cancelled _ _ quiet =>
    rw [List.countP_append, quiet.countP_isResult]
    rfl

theorem number_eq_two_iff (runsTo : RunsTo readText commandLine environment (.ok outcome)) :
    outcome.exitCode.number = 2 ↔ ∃ path, Accepted commandLine environment path ∧
      ∃ diagnostics, loadDump readText environment.files path = .ok (.error diagnostics) := by
  constructor
  · intro number
    cases runsTo with
    | loadFailed accepted failed => exact ⟨_, accepted, _, failed⟩
    | page | refused | finished | cancelled => cases number
  · rintro ⟨path, accepted, diagnostics, failed⟩
    cases runsTo with
    | page _ noCommand => exact absurd accepted.command noCommand
    | refused _ notAccepted => exact absurd accepted (notAccepted path)
    | loadFailed => rfl
    | finished before loaded =>
      cases before.path_unique accepted
      cases loaded.symm.trans failed
    | cancelled before unreported =>
      cases before.path_unique accepted
      exact absurd failed (unreported diagnostics)

theorem cancelled_of_number (runsTo : RunsTo readText commandLine environment (.ok outcome))
    (number : outcome.exitCode.number = 130) : environment.cancelled.isSome = true := by
  cases runsTo with
  | cancelled _ _ _ stopped => exact stopped
  | page | refused | loadFailed | finished => cases number

end RunsTo

/-- Every run ends with an exit code, unless loading an accepted dump throws. The code tells how: it is
zero if nothing went wrong, and then a command has just one result; it is two if the command line was
accepted and its dump could not be loaded; and only a cancelled run ends with the code for it. What is
thrown leaves a run that is not cancelled, and the dump then has a value that is a part of itself. -/
theorem run_disciplined (readText : String → Option DocGraph) (commandLine : List String)
    (environment : Environment) :
    (∃ outcome, run readText commandLine environment = .ok outcome ∧
      outcome.exitCode.number ∈ [0, 1, 2, 130] ∧
      (outcome.messages.any Message.isError = true ↔ outcome.exitCode.number ≠ 0) ∧
      (outcome.messages.countP Message.isResult =
        if outcome.exitCode.number = 0 ∧
          (Arguments.read commandLine).command ∈ ["classify", "inspect"] then 1 else 0) ∧
      (outcome.exitCode.number = 2 ↔ ∃ path, Accepted commandLine environment path ∧
        ∃ diagnostics, loadDump readText environment.files path = .ok (.error diagnostics)) ∧
      (outcome.exitCode.number = 130 → environment.cancelled.isSome = true)) ∨
    ∃ thrown path content graph,
      run readText commandLine environment = .error (.thrown thrown) ∧
      environment.cancelled = none ∧ Accepted commandLine environment path ∧
      environment.files.find? path = some (.file content) ∧ readText content = some graph ∧
      graph.Circular := by
  have runsTo := runsTo_run readText commandLine environment
  cases ran : run readText commandLine environment with
  | ok outcome =>
    rw [ran] at runsTo
    exact .inl ⟨outcome, rfl, runsTo.number_mem, runsTo.any_isError_iff, runsTo.countP_isResult,
      runsTo.number_eq_two_iff, runsTo.cancelled_of_number⟩
  | error escape =>
    rw [ran] at runsTo
    -- no way to end is a defect, so it was thrown
    cases runsTo with
    | threw accepted raised free =>
      obtain ⟨content, graph, found, read, circular⟩ := exists_circular_of_loadDump raised
      exact .inr ⟨_, _, content, graph, rfl, free, accepted, found, read, circular⟩

/-- A dump whose field has an attribute that is the list of its only element itself. -/
def circularText : String :=
  "record: \x7b name: R \x7d\nfields:\n  - \x7b name: F, type: int, attributes: [&a [*a]] \x7d\n"

def circularGraph : DocGraph where
  cells := #[
    .object [("record", 1), ("fields", 3)],
    .object [("name", 2)],
    .leaf (.string "R"),
    .list [4],
    .object [("name", 5), ("type", 6), ("attributes", 7)],
    .leaf (.string "F"),
    .leaf (.string "int"),
    .list [8],
    .list [8]]
  root := 0

def circularEnvironment : Environment where
  directory := .root
  files := [(⟨["dump.yaml"]⟩, .file circularText)]

/-- The message that the attribute is no string has to quote it, which throws. -/
theorem run_escapes_circularText :
    run (fun text => if text = circularText then some circularGraph else none)
        ["classify", "dump.yaml"] circularEnvironment =
      .error (.thrown (.circular { atList := true, between := [], back := .index 0 })) := by
  decide +kernel

end Cli

end MemberOrigin
