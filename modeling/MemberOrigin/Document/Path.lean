import MemberOrigin.Document.Basic

/-!
# Paths into a document

Where a diagnostic points: the keys and positions that lead from the root of a document to a node,
or to a key that is missing there.
-/
namespace MemberOrigin

/-- One step down in a document. -/
inductive Step
  | key (name : String)
  | index (position : Nat)
deriving Repr, DecidableEq, Inhabited

/-- Steps from the root of a document. A marked path is written with a sign for the root. -/
structure DocPath where
  steps : List Step
  marked : Bool := false
deriving Repr, DecidableEq, Inhabited

namespace DocPath

def root : DocPath := ⟨[], false⟩

/-- The root, written as a sign of its own. -/
def markedRoot : DocPath := ⟨[], true⟩

def key (path : DocPath) (name : String) : DocPath :=
  { path with steps := path.steps ++ [.key name] }

def index (path : DocPath) (position : Nat) : DocPath :=
  { path with steps := path.steps ++ [.index position] }

/-- The text of steps that are not the first ones. -/
def stepsText : List Step → String
  | [] => ""
  | .key name :: rest => "." ++ name ++ stepsText rest
  | .index position :: rest => "[" ++ toString position ++ "]" ++ stepsText rest

/-- The text of a path: keys behind dots, positions in brackets. -/
def text (path : DocPath) : String :=
  if path.marked then "$" ++ stepsText path.steps
  else match path.steps with
    | .key name :: rest => name ++ stepsText rest
    | steps => stepsText steps

end DocPath

namespace Document

/-- The node one step down. -/
def child? (step : Step) : Document → Option Document
  | object entries =>
    match step with
    | .key name => find? name entries
    | .index _ => none
  | list items =>
    match step with
    | .index position => items[position]?
    | .key _ => none
  | _ => none

/-- The node at the end of some steps. -/
def node? (document : Document) : List Step → Option Document
  | [] => some document
  | step :: rest => (document.child? step).bind fun child => child.node? rest

end Document

end MemberOrigin
