import MemberOrigin.Document.Graph
import MemberOrigin.Dump.Loader

/-!
# Loading dumps from texts

A reader of texts is handed in; it gives what a text holds, or nothing if the text cannot be read. What
it gives may be a part of itself. The loader reports what is wrong with such a value like with any
other, except in two places: it throws if it has to quote a value that is a part of itself, and it does
not end where an instruction is its own operand.
-/
namespace MemberOrigin

/-- What loading a dump can throw in place of reporting it. -/
inductive Thrown
  /-- A value that is a part of itself was to be quoted. -/
  | circular (circle : Circle)
  /-- Reading went around a circle. -/
  | endless
deriving Repr, DecidableEq, Inhabited

def Thrown.message : Thrown → String
  | circular circle =>
    "\n    ".intercalate ("Converting circular structure to JSON" :: circle.lines)
  | endless => "Maximum call stack size exceeded"

/-- Whether the message quotes the value at the place of the problem. -/
def Cause.isQuote : Cause → Bool
  | notStrings _ _ | badAccessibility _ | badComparison _ => true
  | _ => false

namespace Dump

/-- What is thrown in place of a problem of a value that is cut off at a depth. -/
def thrown? (graph : DocGraph) (depth : Nat) (problem : Problem) : Option Thrown :=
  if depth ≤ problem.path.steps.length then some .endless
  else if problem.cause.isQuote then do
    match graph.documentAt (← graph.follow graph.root problem.path.steps) with
    | .error circle => some (.circular circle)
    | .ok _ => none
  else none

/-- Loads a dump from a value. One that is a part of itself is cut off where the loader does not come:
at most six steps lead to a first instruction or to anything that is no instruction, and whoever passes
more instructions than there are cells comes back to one of them. Problems are found in the order in
which the loader comes to them, so the first that throws ends it. -/
def loadGraph (fileName : String) (graph : DocGraph) :
    Except Thrown (Except (List Problem) RecordDump) :=
  match graph.document with
  | .ok document => .ok (load fileName document)
  | .error _ =>
    let depth := graph.cells.size + 8
    match load fileName (graph.cut depth graph.root) with
    | .ok dump => .ok (.ok dump)
    | .error problems =>
      match problems.findSome? (thrown? graph depth) with
      | some thrown => .error thrown
      | none => .ok (.error problems)

/-- Loads a dump from its text. -/
def loadText (readText : String → Option DocGraph) (fileName text : String) :
    Except Thrown (Except (List Problem) RecordDump) :=
  match readText text with
  | some graph => loadGraph fileName graph
  | none => .ok (.error [⟨.invalidText, .root, .unreadableText⟩])

end Dump

end MemberOrigin
