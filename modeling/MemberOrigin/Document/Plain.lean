import MemberOrigin.Document.Json

/-!
# Unquoted scalars

What a scalar without quotes means: nothing or a spelling of null, a truth value, a whole number
(decimal, `0x` or `0o`), a number, or else the text itself.
-/
namespace MemberOrigin.Document

def octalNumber? (digits : List Char) : Option Nat :=
  if !digits.isEmpty && digits.all (fun c => '0' ≤ c && c ≤ '7') then
    some (digits.foldl (fun value c => value * 8 + (c.toNat - '0'.toNat)) 0)
  else none

/-- The sign of a number, and whether it is negative. -/
def dropSign : List Char → Bool × List Char
  | '-' :: rest => (true, rest)
  | '+' :: rest => (false, rest)
  | rest => (false, rest)

/-- A whole number: decimal digits behind an optional sign, or digits behind `0x` or `0o`. -/
def plainInteger? (text : List Char) : Option Number :=
  match text with
  | '0' :: 'x' :: digits =>
    if digits.isEmpty then none else (hexNumber? digits).map (Number.ofDigits false)
  | '0' :: 'o' :: digits => (octalNumber? digits).map (Number.ofDigits false)
  | _ =>
    let (negative, digits) := dropSign text
    (Text.natural? digits).map (Number.ofDigits negative)

/-- A number with a point or an exponent; a digit on one side of the point suffices. -/
def plainDecimal? (text : List Char) : Option Number :=
  let (negative, unsigned) := dropSign text
  let whole := unsigned.takeWhile Char.isDigit
  let rest := unsigned.dropWhile Char.isDigit
  let (decimals, rest) := match rest with
    | '.' :: more => (more.takeWhile Char.isDigit, more.dropWhile Char.isDigit)
    | rest => ([], rest)
  if whole.isEmpty && decimals.isEmpty then none
  else match readExponent? rest with
    | some (power, []) =>
      some (Number.ofDecimal negative (Text.decimalValue (whole ++ decimals))
        (power - decimals.length))
    | _ => none

/-- The words for numbers that are not finite. -/
def notFinite? (word : String) : Option Number :=
  if [".inf", ".Inf", ".INF", "+.inf", "+.Inf", "+.INF"].contains word then some (.infinite false)
  else if ["-.inf", "-.Inf", "-.INF"].contains word then some (.infinite true)
  else if [".nan", ".NaN", ".NAN"].contains word then some .nan
  else none

/-- A number in any of its spellings. -/
def plainNumber? (text : List Char) : Option Number :=
  match plainInteger? text with
  | some n => some n
  | none =>
    match plainDecimal? text with
    | some n => some n
    | none => notFinite? (String.ofList text)

/-- The meaning of an unquoted scalar. -/
def ofPlain (text : List Char) : Document :=
  let word := String.ofList text
  if ["", "~", "null", "Null", "NULL"].contains word then null
  else if ["true", "True", "TRUE"].contains word then bool true
  else if ["false", "False", "FALSE"].contains word then bool false
  else match plainNumber? text with
    | some n => number n
    | none => string word

end MemberOrigin.Document
