import MemberOrigin.Document.Yaml.Block

/-!
# The YAML form of documents

`Document.Yaml.read?` reads a text that holds one document: block and flow collections, scalars,
anchors, aliases and comments, with the mark `---` in front of it and `...` behind it if need be. A key
that stands twice in a mapping is refused, as is an alias without a node and everything that breaks the
layout. There are no tags, block scalars, directives, aliases as keys or keys marked by `?`.
-/
namespace MemberOrigin.Document.Yaml

/-- Makes every line end a single character. -/
def normalize : List Char → List Char
  | [] => []
  | '\r' :: '\n' :: rest => '\n' :: normalize rest
  | c :: rest => c :: normalize rest

/-- The text without the byte order mark in front of it. -/
def dropByteOrderMark : List Char → List Char
  | c :: rest => if c.toNat == 0xFEFF then rest else c :: rest
  | [] => []

/-- Reads the node of a document from its first content on; without any it is null. Its anchor may
stand on a line of its own. A tab in the first column is in front of a flow collection at most. -/
def rootNode? (limit : Nat) (start : Place) : Option (Node × Place) := do
  let (named?, first) := lineAnchor start
  let start := if first.atLineEnd then first.toContent else first
  let isFlow := start.rest.head?.any fun c => c == '[' || c == '\x7b'
  let (node, after) ← if start.atEnd then some (.leaf null, start)
    else if start.tabbed && start.column == 0 && !isFlow then none
    else blockNode? limit limit 0 start
  return (← named? node, after)

/-- Reads a document with the mark of its start. No block collection starts on the line of the
mark. -/
def document? (limit : Nat) (start : Place) : Option (Node × Place) :=
  if start.column == 0 && !start.tabbed && isTriple '-' start.rest then
    let here := (start.advance 3).skipBlanks
    if here.atLineEnd then rootNode? limit here.toContent else lineNode? 0 limit here
  else rootNode? limit start

/-- Whether nothing follows a document, or nothing but the mark of its end. -/
def isOver (place : Place) : Bool :=
  let after? := if place.column == 0 && !place.tabbed && isTriple '.' place.rest
    then (place.advance 3).finishLine? else some place
  after?.any fun after => after.rest.isEmpty

/-- Reads a text that holds one document; an empty one is null. Every part of a document takes a
character and at most three steps, so the fuel is never short. -/
def read? (text : String) : Option DocGraph :=
  let chars := dropByteOrderMark (normalize text.toList)
  match document? (3 * chars.length + 3) (Place.ofText chars) with
  | some (node, after) => if isOver after then node.graph? else none
  | none => none

end MemberOrigin.Document.Yaml
