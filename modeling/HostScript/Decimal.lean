/-!
# Decimals and binary values

Numerals are lists of characters: the decimal digits of a natural number, and the number that a list of digits
denotes in a given base. Quotients of natural numbers are rounded exactly, and powers are fractions.

A finite single-precision value is `± mantissa · 2 ^ exponent`. `Binary32.parts` reads these off its bits, and
`Binary32.ofRatio` gives the value nearest to a fraction. Of double-precision values only the range matters:
`Binary64.overflows` says which decimals are past all of them. A decimal `significand · 10 ^ exponent` is
brought to double precision factor by factor: both factors are rounded, then their product.
-/

namespace HostScript.Decimal

/-- The decimal digit with value `n`, for `n` below ten. -/
def digitChar (n : Nat) : Char :=
  Char.ofNat (48 + n % 10)

/-- The decimal digits of `n`, most significant first and without leading zeros. -/
def digits (n : Nat) : List Char :=
  if n < 10 then [digitChar n] else digits (n / 10) ++ [digitChar (n % 10)]

/-- The value of a digit; letters continue after nine, in either case. -/
def digitValue (c : Char) : Nat :=
  if c.isDigit then c.toNat - 48
  else if c.isLower then c.toNat - 87
  else c.toNat - 55

/-- The number that a list of digits denotes in base `base`. -/
def value (base : Nat) (ds : List Char) : Nat :=
  ds.foldl (fun n c => n * base + digitValue c) 0

/-- The decimal text of an integer, with a minus sign in front of a negative one. -/
def ofInt : Int → List Char
  | .ofNat n => digits n
  | .negSucc n => '-' :: digits (n + 1)

/-- `num / den` rounded to the nearest integer; a half goes to the even neighbour. -/
def roundHalfEven (num den : Nat) : Nat :=
  let q := num / den
  let r := num % den
  if 2 * r < den then q
  else if den < 2 * r then q + 1
  else q + q % 2

/-- `2 ^ e` as a fraction of natural numbers. -/
def twoPow (e : Int) : Nat × Nat :=
  (Nat.pow 2 e.toNat, Nat.pow 2 (-e).toNat)

/-- `10 ^ e` as a fraction of natural numbers. -/
def tenPow (e : Int) : Nat × Nat :=
  (Nat.pow 10 e.toNat, Nat.pow 10 (-e).toNat)

namespace Binary32

/-- What a single-precision value denotes. -/
inductive Parts where
  | nan
  | infinite (negative : Bool)
  | finite (negative : Bool) (mantissa : Nat) (exponent : Int)
deriving DecidableEq, Repr

/-- The least exponent, that of the subnormal values. -/
def minExponent : Int := -149

/-- One past the largest mantissa. -/
def mantissaBound : Nat := 0x1000000

/-- What the bits of `x` denote. -/
def parts (x : Float32) : Parts :=
  let bits := x.toBits.toNat
  let negative := 0x80000000 ≤ bits
  let biased : Nat := bits / 0x800000 % 256
  let fraction : Nat := bits % 0x800000
  if biased = 255 then
    if fraction = 0 then .infinite negative else .nan
  else if biased = 0 then .finite negative fraction minExponent
  else .finite negative (fraction + 0x800000) ((biased : Int) - 150)

def isNegative (x : Float32) : Bool :=
  0x80000000 ≤ x.toBits.toNat

/-- The exponent at which the mantissa of the value nearest to `num / den` is counted: the mantissa
has 24 bits there, or fewer at the least exponent. -/
def exponentFor (num den : Nat) : Int :=
  let e : Int := (num.log2 : Int) - den.log2 - 24
  let (p, r) := twoPow (e + 24)
  max minExponent (if den * p ≤ num * r then e + 1 else e)

/-- The bits of the value nearest to `num / den`, without sign. A half goes to the value with an
even mantissa, and what is past the largest finite value becomes infinite. -/
def magnitude (num den : Nat) : Nat :=
  if num = 0 then 0
  else
    let e := exponentFor num den
    let (p, r) := twoPow e
    let mantissa := roundHalfEven (num * r) (den * p)
    min ((e - minExponent).toNat * 0x800000 + mantissa) (255 * 0x800000)

/-- The single-precision value nearest to `± num / den`. -/
def ofRatio (negative : Bool) (num den : Nat) : Float32 :=
  Float32.ofBits (UInt32.ofNat (magnitude num den + if negative then 0x80000000 else 0))

/-- The single-precision value nearest to `± mantissa · 10 ^ exponent`. Far outside the range, which
the number of digits tells, the powers of ten are not formed. -/
def ofDecimal (negative : Bool) (mantissa : Nat) (exponent : Int) : Float32 :=
  let size := (digits mantissa).length
  if mantissa = 0 then ofRatio negative 0 1
  else if exponent + size > 60 then ofRatio negative (Nat.pow 10 60) 1
  else if exponent + size < -60 then ofRatio negative 0 1
  else
    let (p, r) := tenPow exponent
    ofRatio negative (mantissa * p) r

end Binary32

namespace Binary64

/-- `n` rounded to 53 bits; a half goes to the even neighbour. -/
def nearest (n : Nat) : Nat :=
  let unit := Nat.pow 2 (n.log2 - 52)
  roundHalfEven n unit * unit

/-- The largest exponent of a power of ten that is a finite value. -/
def maxExponent : Int := 308

/-- The least number that is rounded to infinity: half a step past the largest finite value. -/
def finiteBound : Nat := Nat.pow 2 1024 - Nat.pow 2 970

/-- Whether `significand · 10 ^ exponent` becomes infinite. Nothing with a negative exponent does, as
long as the significand is itself in range. -/
def overflows (significand : Nat) (exponent : Int) : Bool :=
  significand != 0 && (maxExponent < exponent || 0 ≤ exponent &&
    finiteBound ≤ nearest significand * nearest (Nat.pow 10 exponent.toNat))

end Binary64

end HostScript.Decimal
