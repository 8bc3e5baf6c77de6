import MemberOrigin.Document.Yaml.Flow

/-!
# Block collections

Sequences and mappings whose parts stand on lines of their own. The parts of a collection start in one
column, which is its indentation; tabs do not indent them. What belongs to a part is indented
further, but the dashes of a sequence may stand in the column of its key. A reader returns the
place of the next content, which starts a line.
-/
namespace MemberOrigin.Document.Yaml

/-- Reads a key with its colon. In front of a colon that has no key there is null. -/
def blockKey? (limit : Nat) (place : Place) : Option (Node × Place) :=
  if place.atColon then some (.leaf null, place.next)
  else do
    let (key, after) ← inline? place.column limit place
    let colon := after.skipBlanks
    if colon.atColon && place.mayBeKey colon then return (key, colon.next) else none

/-- Reads a flow collection or a scalar that fills the rest of its line. -/
def lineNode? (floor limit : Nat) (place : Place) : Option (Node × Place) := do
  let (node, after) ← inline? floor limit place
  return (node, ← after.finishLine?)

/-- The anchor of a node that starts on a later line, as what names the node, and the end of its
line. -/
def lineAnchor (place : Place) : (Node → Option Node) × Place :=
  match name? '&' place with
  | some (anchor, after) =>
    if after.skipBlanks.atLineEnd then (Node.anchored? anchor, after.skipBlanks) else (some, place)
  | none => (some, place)

mutual

/-- Reads a node that starts at the place, in column `floor` or behind it. `limit` is fuel enough
for any flow collection of the text. -/
def blockNode? (limit : Nat) : Nat → Nat → Place → Option (Node × Place)
  | 0, _, _ => none
  | fuel + 1, floor, place =>
    if place.atDash then blockItems? limit fuel place.column [] place
    else if (blockKey? limit place).isSome then blockEntries? limit fuel place.column {} place
    else lineNode? floor limit place

/-- Reads the items of a block sequence whose dashes stand in the given column. -/
def blockItems? (limit : Nat) : Nat → Nat → List Node → Place → Option (Node × Place)
  | 0, _, _, _ => none
  | fuel + 1, column, seen, place =>
    if place.atEnd || place.column < column || (place.column == column && !place.atDash) then
      some (.list seen.reverse, place)
    else if place.column != column || place.tabbed then none
    else do
      let (named?, here) := lineAnchor place.next.skipBlanks
      let (item, next) ← if here.atLineEnd then
          let next := here.toContent
          if next.atEnd || next.column ≤ column then some (.leaf null, next)
          else blockNode? limit fuel (column + 1) next
        else blockNode? limit fuel (column + 1) here
      blockItems? limit fuel column ((← named? item) :: seen) next

/-- Reads the entries of a block mapping whose keys stand in the given column. -/
def blockEntries? (limit : Nat) : Nat → Nat → Entries → Place → Option (Node × Place)
  | 0, _, _, _ => none
  | fuel + 1, column, entries, place =>
    if place.atEnd || place.column < column then some (.object entries.values, place)
    else if place.column != column || place.tabbed then none
    else do
      let (key, after) ← blockKey? limit place
      let (named?, here) := lineAnchor after.skipBlanks
      let (value, next) ← if here.atLineEnd then
          let next := here.toContent
          if next.atEnd || next.column < column then some (.leaf null, next)
          else if next.column == column then
            if next.atDash then blockItems? limit fuel column [] next else some (.leaf null, next)
          else blockNode? limit fuel (column + 1) next
        else lineNode? (column + 1) limit here
      blockEntries? limit fuel column (← entries.add? key (← named? value)) next

end

end MemberOrigin.Document.Yaml
