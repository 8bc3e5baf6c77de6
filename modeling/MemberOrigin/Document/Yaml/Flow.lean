import MemberOrigin.Document.Yaml.Key

/-!
# Flow collections

Sequences and mappings in brackets. Line ends count as blanks in them, but the lines are indented by
`floor` columns at least; the closing bracket of the outermost collection may stand one column before.
An item of a sequence may be a single entry, whose key stands on the line of its colon. Every
bracket, mark and scalar takes a character, which bounds the fuel of the readers.
-/
namespace MemberOrigin.Document.Yaml

/-- A node whose end shows by itself: a quoted scalar or a collection. -/
def isClosed (place : Place) : Bool :=
  place.rest.head?.any fun c => c == '\'' || c == '\x22' || c == '[' || c == '\x7b'

/-- The place behind the colon of the key that starts at `start`, if `mark` is that colon. Behind
the colon of a plain key there is a gap or a mark. -/
def flowColon? (start mark : Place) : Option Place :=
  match mark.rest with
  | ':' :: rest => if isClosed start || endsKey true rest then some mark.next else none
  | _ => none

/-- Reads a name behind its sign: `&` in front of an anchor, `*` in front of an alias. -/
def name? (sign : Char) (place : Place) : Option (String × Place) :=
  match place.rest with
  | c :: rest =>
    let name := rest.takeWhile fun c => !(isLineSpace c || isFlowMark c)
    if c == sign && !name.isEmpty then some (String.ofList name, place.next.advance name.length)
    else none
  | [] => none

/-- Reads an alias. -/
def aliasNode? (place : Place) : Option (Node × Place) :=
  (name? '*' place).map fun (name, after) => (.reference name, after)

/-- Moves over blanks, comments and line ends between the parts of a flow collection. -/
def flowContent? (floor level : Nat) (place : Place) : Option Place :=
  let here := place.skipBlanks
  if here.rest.head? == some '\n' || (here.rest.head? == some '#' && here.offset != place.offset) then
    let next := here.toContent
    let closes := next.rest.head?.any fun c => c == ']' || c == '\x7d'
    if next.column < floor then
      if closes && level == 1 && next.column + 1 == floor then some next else none
    else if next.column == 0 && isDocumentMark next.rest then none
    else some next
  else some here

mutual

/-- Reads a node of a flow collection. In front of a colon that has no key there is null. -/
def flowNode? (floor : Nat) : Nat → Nat → Place → Option (Node × Place)
  | 0, _, _ => none
  | fuel + 1, level, place =>
    match place.rest.head? with
    | some '[' => flowItems? floor fuel (level + 1) [] place.next
    | some '\x7b' => flowEntries? floor fuel (level + 1) {} place.next
    | some '&' => do
      let (anchor, after) ← name? '&' place
      let (node, after) ← flowNode? floor fuel level (← flowContent? floor level after)
      return (← node.anchored? anchor, after)
    | some '*' => aliasNode? place
    | _ =>
      if (flowColon? place place).isSome then some (.leaf null, place)
      else (scalar? true floor place).map fun (value, after) => (.leaf value, after)

/-- Reads the value behind a colon; nothing there is null. -/
def flowValue? (floor : Nat) : Nat → Nat → Place → Option (Node × Place)
  | 0, _, _ => none
  | fuel + 1, level, place => do
    let here ← flowContent? floor level place
    if here.rest.head?.any (fun c => c == ',' || c == ']' || c == '\x7d') then return (.leaf null, here)
    else flowNode? floor fuel level here

/-- Reads the items of a flow sequence up to its bracket. -/
def flowItems? (floor : Nat) : Nat → Nat → List Node → Place → Option (Node × Place)
  | 0, _, _, _ => none
  | fuel + 1, level, seen, place => do
    let start ← flowContent? floor level place
    if start.rest.head? == some ']' then return (.list seen.reverse, start.next)
    let (first, after) ← flowNode? floor fuel level start
    let mark ← flowContent? floor level after
    let (item, after) ← match flowColon? start mark with
      | some behind =>
        if start.mayBeKey mark then do
          let key ← first.document?
          let (value, after) ← flowValue? floor fuel level behind
          pure (.object [(keyText key, value)], after)
        else none
      | none => some (first, mark)
    let mark ← flowContent? floor level after
    match mark.rest.head? with
    | some ',' => flowItems? floor fuel level (item :: seen) mark.next
    | some ']' => some (.list (item :: seen).reverse, mark.next)
    | _ => none

/-- Reads the entries of a flow mapping up to its brace. -/
def flowEntries? (floor : Nat) : Nat → Nat → Entries → Place → Option (Node × Place)
  | 0, _, _, _ => none
  | fuel + 1, level, entries, place => do
    let start ← flowContent? floor level place
    if start.rest.head? == some '\x7d' then return (.object entries.values, start.next)
    let (key, after) ← flowNode? floor fuel level start
    let mark ← flowContent? floor level after
    let (value, after) ← match flowColon? start mark with
      | some behind => flowValue? floor fuel level behind
      | none => some (.leaf null, mark)
    let entries ← entries.add? key value
    let mark ← flowContent? floor level after
    match mark.rest.head? with
    | some ',' => flowEntries? floor fuel level entries mark.next
    | some '\x7d' => some (.object entries.values, mark.next)
    | _ => none

end

/-- Reads a flow collection, an alias or a scalar without an anchor. -/
def bareInline? (floor fuel : Nat) (place : Place) : Option (Node × Place) :=
  match place.rest.head? with
  | some '[' | some '\x7b' => flowNode? floor fuel 0 place
  | some '*' => aliasNode? place
  | _ => (scalar? false floor place).map fun (value, after) => (.leaf value, after)

/-- Reads a flow collection, an alias or a scalar. -/
def inline? (floor fuel : Nat) (place : Place) : Option (Node × Place) :=
  match name? '&' place with
  | some (anchor, after) => do
    let (node, after) ← bareInline? floor fuel after.skipBlanks
    return (← node.anchored? anchor, after)
  | none => bareInline? floor fuel place

end MemberOrigin.Document.Yaml
