import MemberOrigin.Number.Binary64

/-!
# Numbers of a document

A number in a document is a double. Whole numbers matter by their value; of the other numbers only
the text is ever shown. `Number.text` writes the fewest digits that read back: positional below
`10 ^ 21`, with an exponent from there on and below `10 ^ (-6)`.
-/
namespace MemberOrigin

/-- A double as a document holds it. Negative zero is the whole number zero. -/
inductive Number
  | integer (value : Int)
  /-- A finite number that is not whole, by its shortest text. -/
  | fraction (text : String)
  /-- A number beyond the largest double. -/
  | infinite (negative : Bool)
  /-- Not a number. -/
  | nan
deriving Repr, DecidableEq, Inhabited

namespace Number

/-- Digits with the decimal point after the first `point` of them. -/
def positional (digits : List Char) (point : Int) : List Char :=
  if point ≤ 0 then '0' :: '.' :: List.replicate (-point).toNat '0' ++ digits
  else
    let whole := point.toNat
    if digits.length ≤ whole then digits ++ List.replicate (whole - digits.length) '0'
    else digits.take whole ++ '.' :: digits.drop whole

/-- Digits with the decimal point after the first one, and a signed exponent. -/
def scientific (digits : List Char) (point : Int) : List Char :=
  let exponent := point - 1
  let sign := if exponent < 0 then '-' else '+'
  let tail := digits.drop 1
  digits.take 1 ++ (if tail.isEmpty then [] else '.' :: tail)
    ++ 'e' :: sign :: (toString exponent.natAbs).toList

/-- The shortest text of a positive double. -/
def positiveText (x : Binary64) : String :=
  let (value, power) := x.shortest
  let digits := (toString value).toList
  let point : Int := power + digits.length
  String.ofList (if -6 < point && point ≤ 21 then positional digits point else scientific digits point)

/-- The whole number closest to `n` among the doubles; `none` beyond the largest of them. -/
def roundNat (n : Nat) : Option Nat :=
  if n < Binary64.significandBound then some n else (Binary64.nearest n 1).bind Binary64.toNat?

def natText (n : Nat) : String :=
  if n < Binary64.significandBound then toString n
  else match Binary64.nearest n 1 with
    | some x => positiveText x
    | none => "Infinity"

/-- The text of a whole number. -/
def intText (n : Int) : String :=
  if n < 0 then "-" ++ natText n.natAbs else natText n.natAbs

/-- The number `± digits * 10 ^ power`, rounded to a double. A power that no double reaches is not
computed. -/
def ofDecimal (negative : Bool) (digits : Nat) (power : Int) : Number :=
  let magnitude : Int := power + (toString digits).length
  if digits == 0 || magnitude < -400 then integer 0
  else if magnitude > 400 then infinite negative
  else
    let (n, d) := Binary64.scaled 10 digits 1 power
    match Binary64.nearest n d with
    | none => infinite negative
    | some x =>
      match x.toNat? with
      | some whole => integer (if negative then -whole else whole)
      | none => fraction ((if negative then "-" else "") ++ positiveText x)

/-- The whole number `± digits`, rounded to a double. -/
def ofDigits (negative : Bool) (digits : Nat) : Number :=
  ofDecimal negative digits 0

/-- The text of a number; one that is not finite has a word. -/
def text : Number → String
  | integer value => intText value
  | fraction text => text
  | infinite negative => if negative then "-Infinity" else "Infinity"
  | nan => "NaN"

def isFinite : Number → Bool
  | integer _ | fraction _ => true
  | infinite _ | nan => false

/-- The same value; what is not a number has none. -/
def sameValue (a b : Number) : Bool :=
  a != nan && a == b

/-- Hexadecimal digits of a whole number in lower case, the sign in front. -/
def hex (n : Int) : String :=
  (if n < 0 then "-" else "") ++ String.ofList (Nat.toDigits 16 n.natAbs)

end Number

end MemberOrigin
