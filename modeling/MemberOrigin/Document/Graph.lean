import MemberOrigin.Document.Path

/-!
# Documents with shared parts

What a reader of a text may build: cells that refer to each other. Where a text refers back to a list
or an object that it is still in, that value is a part of itself. Such a value is no `Document`, and
reading all of it has no end; `DocGraph.document` gives the document of any other value.
-/
namespace MemberOrigin

/-- A value without parts, or one whose parts are other cells. -/
inductive DocCell
  | leaf (value : Document)
  | list (items : List Nat)
  | object (entries : List (String × Nat))
deriving Repr, Inhabited

namespace DocCell

def isList : DocCell → Bool
  | list _ => true
  | _ => false

/-- The cells of the parts, each with the step that leads to it. -/
def parts : DocCell → List (Step × Nat)
  | leaf _ => []
  | list items => items.zipIdx.map fun (item, position) => (.index position, item)
  | object entries => entries.map fun (key, value) => (.key key, value)

/-- The value of a cell, given the values of its parts. -/
def build : DocCell → List Document → Document
  | leaf value, _ => value
  | list _, values => .list values
  | object entries, values => .object ((entries.map Prod.fst).zip values)

end DocCell

/-- A way that leads from a list or an object back to it. -/
structure Circle where
  /-- Whether it starts at a list. -/
  atList : Bool
  /-- The steps on the way, each with whether it leads to a list. -/
  between : List (Step × Bool)
  back : Step
deriving Repr, DecidableEq, Inhabited

namespace Circle

def stepText : Step → String
  | .key name => if name.isEmpty then "<anonymous>" else "property '" ++ name ++ "'"
  | .index position => "index " ++ toString position

def kindText (isList : Bool) : String :=
  "object with constructor '" ++ (if isList then "Array" else "Object") ++ "'"

/-- The circle line by line; of a long one, the first two steps and the last one. -/
def lines (circle : Circle) : List String :=
  let steps := circle.between.map fun (step, isList) =>
    "|     " ++ stepText step ++ " -> " ++ kindText isList
  ("--> starting at " ++ kindText circle.atList)
    :: (if steps.length ≤ 3 then steps
        else steps.take 2 ++ ["|     ..."] ++ steps.drop (steps.length - 1))
    ++ ["--- " ++ stepText circle.back ++ " closes the circle"]

end Circle

/-- A value as cells, with the cell that it starts at. -/
structure DocGraph where
  cells : Array DocCell
  root : Nat
deriving Repr, Inhabited

namespace DocGraph

def cell (graph : DocGraph) (node : Nat) : DocCell :=
  graph.cells[node]?.getD (.leaf .null)

/-- The circle that a way closes with a step to a cell that is on it. -/
def circle (graph : DocGraph) (way : List (Step × Nat)) (back : Step) (node : Nat) : Circle where
  atList := (graph.cell node).isList
  between := ((way.dropWhile fun entry => entry.2 != node).drop 1).map fun (step, passed) =>
    (step, (graph.cell passed).isList)
  back := back

/-- The document below a cell that a step leads to; `way` holds the cells above it, from the outermost
on. The way is a circle once it comes back to a cell, and it does if it is longer than there are
cells. -/
def tree (graph : DocGraph) : Nat → List (Step × Nat) → Step → Nat → Except Circle Document
  | 0, way, step, node => .error (graph.circle way step node)
  | fuel + 1, way, step, node =>
    if (way.map Prod.snd).contains node then .error (graph.circle way step node)
    else do
      let values ← (graph.cell node).parts.mapM fun (next, part) =>
        tree graph fuel (way ++ [(step, node)]) next part
      return (graph.cell node).build values

/-- The document at a cell, or a circle below it. -/
def documentAt (graph : DocGraph) (node : Nat) : Except Circle Document :=
  graph.tree (graph.cells.size + 1) [] (.key "") node

/-- The document that a value is, if it is no part of itself. -/
def document (graph : DocGraph) : Except Circle Document :=
  graph.documentAt graph.root

/-- The cell at the end of some steps. -/
def follow (graph : DocGraph) : Nat → List Step → Option Nat
  | node, [] => some node
  | node, step :: rest => do graph.follow (← (graph.cell node).parts.lookup step) rest

/-- The value below a cell down to so many steps. Lists and objects that lie deeper are cut off: a
truth value stands for them. -/
def cut (graph : DocGraph) : Nat → Nat → Document
  | 0, node => if (graph.cell node).parts.isEmpty then (graph.cell node).build [] else .bool false
  | depth + 1, node =>
    (graph.cell node).build ((graph.cell node).parts.map fun (_, part) => cut graph depth part)

end DocGraph

end MemberOrigin
