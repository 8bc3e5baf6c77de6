/-!
# Doubles

Non-negative binary floating-point numbers of 53 significant bits. `nearest` rounds a quotient to
the closest of them, a tie going to the even significand; `shortest` finds the fewest decimal
digits that read back as the same number. Both work in exact natural-number arithmetic.
-/
namespace MemberOrigin

/-- The double `significand * 2 ^ exponent`. -/
structure Binary64 where
  significand : Nat
  exponent : Int
deriving Repr, DecidableEq, Inhabited

namespace Binary64

/-- The smallest exponent of a double. -/
def minExponent : Int := -1074

/-- The largest exponent of a double. -/
def maxExponent : Int := 971

/-- The smallest significand of 53 bits. A double with a smaller one has the smallest exponent. -/
def fullSignificand : Nat := Nat.pow 2 52

/-- All significands are below this number, and all whole numbers below it are doubles. -/
def significandBound : Nat := Nat.pow 2 53

/-- The smallest power of two beyond all doubles. -/
def overflow : Nat := Nat.pow 2 1024

/-- The fraction `num / den` scaled by `base ^ power`, again as a fraction. -/
def scaled (base : Nat) (num den : Nat) (power : Int) : Nat × Nat :=
  if 0 ≤ power then (num * base.pow power.toNat, den) else (num, den * base.pow (-power).toNat)

/-- The quotient rounded to a whole number, a half going to the even neighbour. -/
def roundEven (num den : Nat) : Nat :=
  let whole := num / den
  let rest := num % den
  if 2 * rest > den || (2 * rest == den && whole % 2 == 1) then whole + 1 else whole

/-- The double closest to `num / den`, for a positive `den`; `none` beyond the largest double. -/
def nearest (num den : Nat) : Option Binary64 :=
  if num == 0 then some ⟨0, minExponent⟩ else
  -- the quotient has the bits of `num` less those of `den`, or one bit less
  let guess : Int := (num.log2 : Int) - den.log2 - 53
  let (n, d) := scaled 2 num den (-guess)
  let fitting := if n / d < significandBound then guess else guess + 1
  let exponent := max minExponent fitting
  let (n, d) := scaled 2 num den (-exponent)
  let significand := roundEven n d
  -- rounding up can carry into one more bit
  let (significand, exponent) :=
    if significand == significandBound then (fullSignificand, exponent + 1)
    else (significand, exponent)
  if exponent > maxExponent then none else some ⟨significand, exponent⟩

/-- The whole number that a double is, if it is one. -/
def toNat? (x : Binary64) : Option Nat :=
  let (n, d) := scaled 2 x.significand 1 x.exponent
  if n % d == 0 then some (n / d) else none

/-- The numbers that round to `x` lie between these two fractions, with the ends included when the
significand is even. -/
def interval (x : Binary64) : (Nat × Nat) × (Nat × Nat) :=
  let below := if x.significand == fullSignificand && x.exponent > minExponent then 1 else 2
  (scaled 2 (4 * x.significand - below) 1 (x.exponent - 2),
    scaled 2 (4 * x.significand + 2) 1 (x.exponent - 2))

/-- Whether `digits * 10 ^ power` rounds to `x`. -/
def reads (x : Binary64) (digits : Nat) (power : Int) : Bool :=
  let ((lowNum, lowDen), (highNum, highDen)) := x.interval
  let (n, d) := scaled 10 digits 1 power
  if x.significand % 2 == 0 then lowNum * d ≤ n * lowDen && n * highDen ≤ highNum * d
  else lowNum * d < n * lowDen && n * highDen < highNum * d

/-- The digits on the grid of multiples of `10 ^ power` that read back as `x`, the closer of two. -/
def onGrid? (x : Binary64) (power : Int) : Option Nat :=
  let (n, d) := scaled 2 x.significand 1 x.exponent
  let (n, d) := scaled 10 n d (-power)
  let below := n / d
  let closest := roundEven n d
  let other := if closest == below then below + 1 else below
  if x.reads closest power then some closest
  else if x.reads other power then some other
  else none

/-- The first grid with a hit, going to finer ones. -/
def firstGrid (x : Binary64) : Nat → Int → Nat × Int
  | 0, power => (0, power)
  | fuel + 1, power =>
    match x.onGrid? power with
    | some digits => (digits, power)
    | none => firstGrid x fuel (power - 1)

/-- The fewest decimal digits that read back as `x`, with their power of ten. The search starts at
a power of ten above `x` and ends within seventeen digits of it. -/
def shortest (x : Binary64) : Nat × Int :=
  let bits : Int := (x.significand.log2 : Int) + x.exponent
  firstGrid x 24 ((bits + 1) * 30103 / 100000 + 2)

end Binary64

end MemberOrigin
