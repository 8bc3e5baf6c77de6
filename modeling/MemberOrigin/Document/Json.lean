import MemberOrigin.Document.Basic
import MemberOrigin.Text.Quoted
import MemberOrigin.Text.Word

/-!
# The JSON form of documents

`Document.toJson` writes a document on one line and `Document.toJsonLines` with two blanks of
indentation for each level. `Document.ofJson?` reads the form strictly; of a key that is written
twice the last value counts.
-/
namespace MemberOrigin.Document

/-- The text of a number; the form has none for a number that is not finite. -/
def numberToJson (value : Number) : String :=
  if value.isFinite then value.text else "null"

mutual

/-- The document on one line, without blanks. -/
def toJson : Document → String
  | null => "null"
  | bool value => if value then "true" else "false"
  | number value => numberToJson value
  | string value => Text.quote value
  | list items => "[" ++ ",".intercalate (itemsToJson items) ++ "]"
  | object entries => "\x7b" ++ ",".intercalate (entriesToJson entries) ++ "\x7d"

def itemsToJson : List Document → List String
  | [] => []
  | item :: rest => toJson item :: itemsToJson rest

def entriesToJson : List (String × Document) → List String
  | [] => []
  | (key, value) :: rest => (Text.quote key ++ ":" ++ toJson value) :: entriesToJson rest

end

/-- Writes the parts of a list or an object on lines of their own; without parts, the brackets
alone. -/
def bracketLines (opening closing margin : String) (parts : List String) : String :=
  if parts.isEmpty then opening ++ closing
  else
    opening ++ "\n" ++ ",\n".intercalate (parts.map fun part => margin ++ "  " ++ part)
      ++ "\n" ++ margin ++ closing

mutual

/-- The document over several lines, continuing behind `margin`. -/
def linesFrom (margin : String) : Document → String
  | null => "null"
  | bool value => if value then "true" else "false"
  | number value => numberToJson value
  | string value => Text.quote value
  | list items => bracketLines "[" "]" margin (itemLines (margin ++ "  ") items)
  | object entries => bracketLines "\x7b" "\x7d" margin (entryLines (margin ++ "  ") entries)

def itemLines (margin : String) : List Document → List String
  | [] => []
  | item :: rest => linesFrom margin item :: itemLines margin rest

def entryLines (margin : String) : List (String × Document) → List String
  | [] => []
  | (key, value) :: rest =>
    (Text.quote key ++ ": " ++ linesFrom margin value) :: entryLines margin rest

end

/-- The document over several lines. -/
def toJsonLines (document : Document) : String :=
  linesFrom "" document

/-- The characters between the parts of a JSON text. -/
def isJsonBlank (c : Char) : Bool :=
  c == ' ' || c == '\t' || c == '\n' || c == '\r'

def skipBlanks (text : List Char) : List Char :=
  text.dropWhile isJsonBlank

def hexValue? (c : Char) : Option Nat :=
  if c.isDigit then some (c.toNat - '0'.toNat)
  else if 'a' ≤ c && c ≤ 'f' then some (c.toNat - 'a'.toNat + 10)
  else if 'A' ≤ c && c ≤ 'F' then some (c.toNat - 'A'.toNat + 10)
  else none

/-- The value of hexadecimal digits, the first one weighing most. -/
def hexNumber? (digits : List Char) : Option Nat :=
  digits.foldl (fun value? c =>
    match value?, hexValue? c with
    | some value, some digit => some (value * 16 + digit)
    | _, _ => none) (some 0)

/-- Reads the four digits of a `\u` escape. -/
def unit? : List Char → Option (Nat × List Char)
  | a :: b :: c :: d :: rest => (hexNumber? [a, b, c, d]).map fun value => (value, rest)
  | _ => none

/-- The character of a `\u` escape; two surrogates in a row make one character, and a surrogate
that stands alone is replaced. -/
def escapedUnit? (text : List Char) : Option (Char × List Char) :=
  match unit? text with
  | none => none
  | some (high, rest) =>
    if 0xD800 ≤ high && high < 0xDC00 then
      match rest with
      | '\\' :: 'u' :: more =>
        match unit? more with
        | some (low, rest') =>
          if 0xDC00 ≤ low && low < 0xE000 then
            some (Char.ofNat (0x10000 + (high - 0xD800) * 0x400 + (low - 0xDC00)), rest')
          else some (Char.ofNat 0xFFFD, rest)
        | none => some (Char.ofNat 0xFFFD, rest)
      | _ => some (Char.ofNat 0xFFFD, rest)
    else if 0xDC00 ≤ high && high < 0xE000 then some (Char.ofNat 0xFFFD, rest)
    else some (Char.ofNat high, rest)

/-- The character that a letter behind a backslash stands for. -/
def simpleEscape? (c : Char) : Option Char :=
  match c with
  | '\x22' | '\\' | '/' => some c
  | 'b' => some (Char.ofNat 8)
  | 'f' => some (Char.ofNat 12)
  | 'n' => some '\n'
  | 'r' => some '\r'
  | 't' => some '\t'
  | _ => none

/-- The text up to the closing quote; a character behind a backslash closes nothing. -/
def quotedText? : List Char → Option (List Char)
  | [] => none
  | '\x22' :: _ => some []
  | '\\' :: c :: rest => (quotedText? rest).map fun text => '\\' :: c :: text
  | c :: rest => (quotedText? rest).map (c :: ·)

/-- The value of a quoted text. -/
def unquote? : Nat → List Char → Option (List Char)
  | 0, _ => none
  | _, [] => some []
  | fuel + 1, '\\' :: rest =>
    match rest with
    | 'u' :: rest =>
      match escapedUnit? rest with
      | some (c, rest) => (unquote? fuel rest).map (c :: ·)
      | none => none
    | c :: rest =>
      match simpleEscape? c with
      | some c => (unquote? fuel rest).map (c :: ·)
      | none => none
    | [] => none
  | fuel + 1, c :: rest => if c.toNat < 0x20 then none else (unquote? fuel rest).map (c :: ·)

/-- Reads a quoted text behind its opening quote. -/
def readQuoted? (text : List Char) : Option (String × List Char) :=
  match quotedText? text with
  | some inside =>
    (unquote? (inside.length + 1) inside).map fun value =>
      (String.ofList value, text.drop (inside.length + 1))
  | none => none

/-- Reads an exponent, if there is one: the power of ten. -/
def readExponent? (text : List Char) : Option (Int × List Char) :=
  match text with
  | c :: rest =>
    if c == 'e' || c == 'E' then
      let (negative, rest) := match rest with
        | '-' :: rest => (true, rest)
        | '+' :: rest => (false, rest)
        | rest => (false, rest)
      match Text.natural? (rest.takeWhile Char.isDigit) with
      | some n => some (if negative then -n else n, rest.dropWhile Char.isDigit)
      | none => none
    else some (0, text)
  | [] => some (0, [])

/-- Reads a number: no leading zeros, digits on both sides of a point. -/
def readNumber? (text : List Char) : Option (Number × List Char) :=
  let (negative, text) := match text with
    | '-' :: rest => (true, rest)
    | rest => (false, rest)
  let whole := text.takeWhile Char.isDigit
  let rest := text.dropWhile Char.isDigit
  if whole.isEmpty || (whole.head? == some '0' && whole.length != 1) then none
  else
    let (decimals, rest, wellFormed) := match rest with
      | '.' :: more =>
        (more.takeWhile Char.isDigit, more.dropWhile Char.isDigit,
          !(more.takeWhile Char.isDigit).isEmpty)
      | rest => ([], rest, true)
    match wellFormed, readExponent? rest with
    | true, some (power, rest) =>
      some (Number.ofDecimal negative (Text.decimalValue (whole ++ decimals))
        (power - decimals.length), rest)
    | _, _ => none

/-- What is left behind `word`, if the text starts with it. -/
def dropWord? (word : String) (text : List Char) : Option (List Char) :=
  if word.toList.isPrefixOf text then some (text.drop word.toList.length) else none

mutual

/-- Reads one value; leading blanks are skipped. -/
def readJson : Nat → List Char → Option (Document × List Char)
  | 0, _ => none
  | fuel + 1, text =>
    match skipBlanks text with
    | '\x7b' :: rest =>
      match skipBlanks rest with
      | '\x7d' :: rest => some (object [], rest)
      | rest => readEntries fuel [] rest
    | '[' :: rest =>
      match skipBlanks rest with
      | ']' :: rest => some (list [], rest)
      | rest => readItems fuel [] rest
    | '\x22' :: rest => (readQuoted? rest).map fun (s, rest) => (string s, rest)
    | 'n' :: rest => (dropWord? "ull" rest).map fun rest => (null, rest)
    | 't' :: rest => (dropWord? "rue" rest).map fun rest => (bool true, rest)
    | 'f' :: rest => (dropWord? "alse" rest).map fun rest => (bool false, rest)
    | rest => (readNumber? rest).map fun (n, rest) => (number n, rest)

/-- Reads the items of a list up to its closing bracket. -/
def readItems : Nat → List Document → List Char → Option (Document × List Char)
  | 0, _, _ => none
  | fuel + 1, seen, text =>
    match readJson fuel text with
    | some (item, rest) =>
      match skipBlanks rest with
      | ',' :: rest => readItems fuel (item :: seen) rest
      | ']' :: rest => some (list (item :: seen).reverse, rest)
      | _ => none
    | none => none

/-- Reads the entries of an object up to its closing brace. -/
def readEntries : Nat → List (String × Document) → List Char → Option (Document × List Char)
  | 0, _, _ => none
  | fuel + 1, seen, text =>
    match skipBlanks text with
    | '\x22' :: rest =>
      match readQuoted? rest with
      | some (key, rest) =>
        match skipBlanks rest with
        | ':' :: rest =>
          match readJson fuel rest with
          | some (value, rest) =>
            match skipBlanks rest with
            | ',' :: rest => readEntries fuel (put key value seen) rest
            | '\x7d' :: rest => some (object (put key value seen), rest)
            | _ => none
          | none => none
        | _ => none
      | none => none
    | _ => none

end

/-- Reads a text that holds one value and nothing else. A value takes at most two steps for each
of its characters, so the fuel is never short. -/
def ofJson? (text : String) : Option Document :=
  let chars := text.toList
  match readJson (2 * chars.length + 2) chars with
  | some (document, rest) => if (skipBlanks rest).isEmpty then some document else none
  | none => none

end MemberOrigin.Document
