/-!
# Places in a YAML text

A `Place` is what is left of a text together with the measures that the layout of YAML refers to:
the line, the column and the number of units in front. The column of a line's first content is its
indentation: the spaces in front of it, up to the first tab. `Place.toContent` moves over line
ends, blank lines and comments.
-/
namespace MemberOrigin.Document.Yaml

/-- A blank within a line. -/
def isLineBlank (c : Char) : Bool :=
  c == ' ' || c == '\t'

/-- Blank, a line end or the end of the text. -/
def isGap : List Char → Bool
  | [] => true
  | c :: _ => isLineBlank c || c == '\n' || c == '\r'

/-- A mark of three characters that stands for itself. -/
def isTriple (mark : Char) : List Char → Bool
  | a :: b :: c :: rest => a == mark && b == mark && c == mark && isGap rest
  | _ => false

/-- The mark of the start or the end of a document. Either ends the document before it. -/
def isDocumentMark (text : List Char) : Bool :=
  isTriple '-' text || isTriple '.' text

/-- A place in a text. -/
structure Place where
  rest : List Char
  line : Nat
  column : Nat
  /-- The UTF-16 units in front of the place. -/
  offset : Nat
  /-- Whether the blanks just in front hold a tab. -/
  tabbed : Bool
deriving Repr, Inhabited

namespace Place

/-- The number of UTF-16 units of a character. -/
def units (c : Char) : Nat :=
  if c.toNat < 0x10000 then 1 else 2

/-- The place behind the next character. -/
def next (place : Place) : Place :=
  match place.rest with
  | [] => place
  | c :: rest =>
    { rest, line := if c == '\n' then place.line + 1 else place.line
      column := if c == '\n' then 0 else place.column + 1
      offset := place.offset + units c, tabbed := false }

/-- Moves over `n` characters. -/
def advance (place : Place) : Nat → Place
  | 0 => place
  | n + 1 => place.next.advance n

/-- Moves over blanks within the line. -/
def skipBlanks (place : Place) : Place :=
  let blanks := place.rest.takeWhile isLineBlank
  { place.advance blanks.length with tabbed := place.tabbed || blanks.contains '\t' }

/-- The first character that is neither blank nor in a comment, given the measures of the first
character; `comment` says whether a comment runs up to the next line end. -/
def seek (line column offset : Nat) (tabbed comment : Bool) : List Char → Place
  | [] => ⟨[], line, column, offset, tabbed⟩
  | c :: rest =>
    if c == '\n' then seek (line + 1) 0 (offset + 1) false false rest
    else if comment || c == '#' then seek line column (offset + units c) tabbed true rest
    else if c == ' ' && !tabbed then seek line (column + 1) (offset + 1) false false rest
    else if isLineBlank c then seek line column (offset + 1) true false rest
    else ⟨c :: rest, line, column, offset, tabbed⟩

/-- The first content of a text. -/
def ofText (text : List Char) : Place :=
  seek 0 0 0 false false text

/-- The first content behind the rest of the line. -/
def toContent (place : Place) : Place :=
  seek place.line place.column place.offset false true place.rest

/-- Nothing, a line end or a comment. -/
def atLineEnd (place : Place) : Bool :=
  match place.rest with
  | [] | '\n' :: _ | '#' :: _ => true
  | _ => false

/-- Requires the end of the line, and goes on to the next content. A comment starts behind a
blank. -/
def finishLine? (place : Place) : Option Place :=
  let here := place.skipBlanks
  if here.atLineEnd && (here.offset != place.offset || here.rest.head? != some '#')
  then some here.toContent else none

/-- Whether the document ends at a place that starts a line: with the text, or with a mark in the
first column. -/
def atEnd (place : Place) : Bool :=
  place.rest.isEmpty || (place.column == 0 && !place.tabbed && isDocumentMark place.rest)

/-- Whether the next character is `mark` with a gap behind it. -/
def startsWith (mark : Char) (place : Place) : Bool :=
  match place.rest with
  | c :: rest => c == mark && isGap rest
  | [] => false

/-- The dash in front of an item of a block sequence. -/
def atDash (place : Place) : Bool :=
  place.startsWith '-'

/-- The colon behind a key of a block mapping. -/
def atColon (place : Place) : Bool :=
  place.startsWith ':'

/-- The largest distance of a colon from the start of its key, where a key is not marked. -/
def maxKeyUnits : Nat := 1024

/-- Whether what starts at a place may be the key of a colon: it stands on the line of the colon
and does not lie too far before it. -/
def mayBeKey (start colon : Place) : Bool :=
  start.line == colon.line && colon.offset ≤ start.offset + maxKeyUnits

end Place

end MemberOrigin.Document.Yaml
