import MemberOrigin.Cli.Run
import MemberOrigin.Document.Yaml

/-!
# The program

Reads the files that a run can look at, runs the command line, and shows the messages.
-/
namespace MemberOrigin

/-- What stands at a path, if anything does. -/
def readEntry? (path : Cli.FilePath) : IO (Option Cli.Entry) := do
  let place := (← IO.currentDir) / path.text
  if ← place.pathExists then
    try
      return some (.file (← IO.FS.readFile place))
    catch _ =>
      return some .unreadable
  else return none

/-- The consulted files that exist. -/
def readFiles (paths : List Cli.FilePath) : IO Cli.FileView := do
  let mut files : Cli.FileView := []
  for path in paths do
    if let some entry ← readEntry? path then
      files := files ++ [(path, entry)]
  return files

end MemberOrigin

open MemberOrigin

/-- Runs the program on the files it can see. -/
def main (commandLine : List String) : IO UInt32 := do
  let directory := Cli.FilePath.root.resolve (← IO.currentDir).toString
  let files ← readFiles (Cli.consulted commandLine directory)
  match Cli.run Document.Yaml.read? commandLine { directory, files } with
  | .ok outcome =>
    for (channel, text) in outcome.lines do
      match channel with
      | .output => IO.println text
      | .error => IO.eprintln text
    return outcome.exitCode.number.toUInt32
  | .error escape =>
    IO.eprintln ("Fatal error: " ++ escape.message)
    return 1
