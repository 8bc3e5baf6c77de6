import MemberOrigin.Document.Plain
import MemberOrigin.Document.Yaml.Place

/-!
# Scalars of a YAML text

A scalar is plain, in single quotes or in double quotes, and may run over several lines. A line end
within it is folded: it becomes a blank, and the blank lines behind it become line ends. The lines
that continue a scalar are indented by `floor` columns at least; where no indentation is required,
only a document mark ends a scalar.
-/
namespace MemberOrigin.Document.Yaml

def isFlowMark (c : Char) : Bool :=
  c == ',' || c == '[' || c == ']' || c == '\x7b' || c == '\x7d'

/-- Whether the text behind a colon makes the colon a mark. -/
def endsKey (inFlow : Bool) (rest : List Char) : Bool :=
  isGap rest || (inFlow && rest.head?.any isFlowMark)

/-- Whether a scalar may go on in this line. A line of spaces alone is no part of the layout. -/
def continues (floor : Nat) (line : List Char) : Bool :=
  if floor == 0 then !isDocumentMark line
  else
    let spaces := (line.takeWhile (· == ' ')).length
    floor ≤ spaces || (line.drop spaces).head? == some '\n'

def isLineSpace (c : Char) : Bool :=
  isLineBlank c || c == '\n'

def dropStart (text : List Char) : List Char :=
  text.dropWhile isLineBlank

def dropEnd (isDropped : Char → Bool) (text : List Char) : List Char :=
  (text.reverse.dropWhile isDropped).reverse

/-- What a line end becomes that so many blank lines follow. -/
def foldedBreak (blankLines : Nat) : List Char :=
  if blankLines == 0 then [' '] else List.replicate blankLines '\n'

/-- Folds the lines behind the first one, after so many blank lines. -/
def foldMore (blankLines : Nat) : List (List Char) → List Char
  | [] => []
  | [last] => foldedBreak blankLines ++ dropStart last
  | line :: rest =>
    let text := dropStart (dropEnd isLineBlank line)
    if text.isEmpty then foldMore (blankLines + 1) rest
    else foldedBreak blankLines ++ text ++ foldMore 0 rest

/-- Folds the line ends of a text, with the blanks around them. -/
def foldLines (text : List Char) : List Char :=
  match text.splitOn '\n' with
  | first :: second :: rest => dropEnd isLineBlank first ++ foldMore 0 (second :: rest)
  | _ => text

/-- The characters of a plain scalar, up to a mark, a comment or a line that does not continue it. -/
def plainChars (inFlow : Bool) (floor : Nat) : List Char → List Char
  | [] => []
  | c :: rest =>
    if c == ':' && endsKey inFlow rest then []
    else if isLineSpace c && (rest.head? == some '#' || (inFlow && rest.head?.any isFlowMark)) then []
    else if (c == '\n' && !continues floor rest) || (inFlow && isFlowMark c) then []
    else c :: plainChars inFlow floor rest

/-- What a plain scalar may start with. -/
def startsPlain (inFlow : Bool) : List Char → Bool
  | [] => false
  | c :: rest =>
    if c == '-' || c == '?' || c == ':' then !endsKey inFlow rest
    else !(isLineSpace c || isFlowMark c || "#&*!|>'%@\x60\x22".toList.contains c)

/-- Reads a plain scalar; the blanks at its end do not belong to it. -/
def plain? (inFlow : Bool) (floor : Nat) (place : Place) : Option (Document × Place) :=
  if startsPlain inFlow place.rest then
    let text := dropEnd isLineSpace (plainChars inFlow floor place.rest)
    some (ofPlain (foldLines text), place.advance text.length)
  else none

/-- The text up to the closing single quote, which is written twice inside. -/
def singleQuoted? (floor : Nat) : List Char → Option (List Char)
  | [] => none
  | '\'' :: '\'' :: rest => (singleQuoted? floor rest).map (['\'', '\''] ++ ·)
  | '\'' :: _ => some []
  | c :: rest =>
    if c == '\n' && !continues floor rest then none
    else (singleQuoted? floor rest).map (c :: ·)

/-- Makes every pair of single quotes one. -/
def undouble : List Char → List Char
  | '\'' :: '\'' :: rest => '\'' :: undouble rest
  | c :: rest => c :: undouble rest
  | [] => []

/-- The text up to the closing double quote; a character behind a backslash closes nothing. -/
def doubleQuoted? (floor : Nat) : List Char → Option (List Char)
  | [] => none
  | '\x22' :: _ => some []
  | '\\' :: c :: rest =>
    if c == '\n' && !continues floor rest then none
    else (doubleQuoted? floor rest).map (['\\', c] ++ ·)
  | c :: rest =>
    if c == '\n' && !continues floor rest then none
    else (doubleQuoted? floor rest).map (c :: ·)

/-- The character that a letter behind a backslash stands for. -/
def escape? (c : Char) : Option Char :=
  match c with
  | '0' => some (Char.ofNat 0)
  | 'a' => some (Char.ofNat 7)
  | 'v' => some (Char.ofNat 11)
  | 'e' => some (Char.ofNat 27)
  | ' ' | '\t' => some c
  | '_' => some (Char.ofNat 0xA0)
  | 'N' => some (Char.ofNat 0x85)
  | 'L' => some (Char.ofNat 0x2028)
  | 'P' => some (Char.ofNat 0x2029)
  | c => simpleEscape? c

/-- Reads an escape behind its backslash. -/
def readEscape? (text : List Char) : Option (Char × List Char) :=
  match text with
  | 'u' :: rest => escapedUnit? rest
  | 'x' :: rest =>
    if rest.length < 2 then none
    else (hexNumber? (rest.take 2)).map fun n => (Char.ofNat n, rest.drop 2)
  | 'U' :: rest =>
    match hexNumber? (rest.take 8) with
    | some n => if rest.length < 8 || 0x110000 ≤ n then none else some (Char.ofNat n, rest.drop 8)
    | none => none
  | c :: rest => (escape? c).map fun c => (c, rest)
  | [] => none

/-- The value of a text in double quotes: escapes are read and line ends folded. A backslash joins
two lines. -/
def unescape : Nat → List Char → Option (List Char)
  | 0, _ => none
  | _, [] => some []
  | fuel + 1, c :: rest =>
    if c == '\\' then
      if rest.head? == some '\n' then unescape fuel (dropStart (rest.drop 1))
      else
        match readEscape? rest with
        | some (c, rest) => (unescape fuel rest).map (c :: ·)
        | none => none
    else if isLineSpace c then
      let space := c :: rest.takeWhile isLineSpace
      let lineEnds := space.count '\n'
      let value := if lineEnds == 0 then space else foldedBreak (lineEnds - 1)
      (unescape fuel (rest.dropWhile isLineSpace)).map (value ++ ·)
    else (unescape fuel rest).map (c :: ·)

/-- Reads a quoted scalar. -/
def quoted? (floor : Nat) (place : Place) : Option (Document × Place) := do
  let (text, value) ← match place.rest with
    | '\'' :: rest => do
      let text ← singleQuoted? floor rest
      pure (text, undouble (foldLines text))
    | '\x22' :: rest => do
      let text ← doubleQuoted? floor rest
      pure (text, ← unescape (text.length + 1) text)
    | _ => none
  return (string (String.ofList value), place.advance (text.length + 2))

/-- Reads a scalar. -/
def scalar? (inFlow : Bool) (floor : Nat) (place : Place) : Option (Document × Place) :=
  match place.rest.head? with
  | some '\'' | some '\x22' => quoted? floor place
  | _ => plain? inFlow floor place

end MemberOrigin.Document.Yaml
