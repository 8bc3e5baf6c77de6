import MemberOrigin.Document.Graph

/-!
# Nodes of a YAML text

A node as it is written, with the anchors that name nodes and the aliases that stand for them. Composing
a node gives every part a cell. An alias stands for the last node of its name in front of it, also for
one that is still open there.
-/
namespace MemberOrigin.Document.Yaml

/-- A node as it is written. The keys of an object are texts, and an alias is a reference. -/
inductive Node
  | leaf (value : Document)
  | list (items : List Node)
  | object (entries : List (String × Node))
  | anchored (anchor : String) (node : Node)
  | reference (anchor : String)
deriving Inhabited

namespace Node

mutual

/-- The document that a node without aliases is. -/
def document? : Node → Option Document
  | leaf value => some value
  | list items => (documents? items).map .list
  | object entries => (entryDocuments? entries).map .object
  | anchored _ node => document? node
  | reference _ => none

def documents? : List Node → Option (List Document)
  | [] => some []
  | item :: rest => do return (← document? item) :: (← documents? rest)

def entryDocuments? : List (String × Node) → Option (List (String × Document))
  | [] => some []
  | (key, value) :: rest => do return (key, ← document? value) :: (← entryDocuments? rest)

end

/-- Names a node. An alias is named already, and no node has two names. -/
def anchored? (anchor : String) : Node → Option Node
  | reference _ | anchored _ _ => none
  | node => some (anchored anchor node)

end Node

/-- The cells made so far, and the cells that the anchors name, the last one first. -/
structure Composed where
  cells : Array DocCell := #[]
  anchors : List (String × Nat) := []

namespace Composed

def add (composed : Composed) (cell : DocCell) : Nat × Composed :=
  (composed.cells.size, { composed with cells := composed.cells.push cell })

def fill (composed : Composed) (node : Nat) (cell : DocCell) : Composed :=
  { composed with cells := composed.cells.setIfInBounds node cell }

end Composed

mutual

/-- Gives a node a cell, and its parts theirs. A list or an object has its cell before its parts, so
that they can refer to it. -/
def compose? : Node → Composed → Option (Nat × Composed)
  | .leaf value, composed => some (composed.add (.leaf value))
  | .list items, composed => do
    let (node, composed) := composed.add (.list [])
    let (items, composed) ← composeItems? items composed
    return (node, composed.fill node (.list items))
  | .object entries, composed => do
    let (node, composed) := composed.add (.object [])
    let (entries, composed) ← composeEntries? entries composed
    return (node, composed.fill node (.object entries))
  | .anchored anchor node, composed =>
    -- the next cell is the one of this node
    compose? node { composed with anchors := (anchor, composed.cells.size) :: composed.anchors }
  | .reference anchor, composed => do return (← composed.anchors.lookup anchor, composed)

def composeItems? : List Node → Composed → Option (List Nat × Composed)
  | [], composed => some ([], composed)
  | item :: rest, composed => do
    let (first, composed) ← compose? item composed
    let (others, composed) ← composeItems? rest composed
    return (first :: others, composed)

def composeEntries? : List (String × Node) → Composed → Option (List (String × Nat) × Composed)
  | [], composed => some ([], composed)
  | (key, value) :: rest, composed => do
    let (first, composed) ← compose? value composed
    let (others, composed) ← composeEntries? rest composed
    return ((key, first) :: others, composed)

end

/-- The value of a node, if every alias has a node. -/
def Node.graph? (node : Node) : Option DocGraph := do
  let (root, composed) ← compose? node {}
  return { cells := composed.cells, root }

end MemberOrigin.Document.Yaml
