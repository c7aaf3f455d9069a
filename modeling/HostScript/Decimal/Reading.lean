import HostScript.Decimal

/-!
# Reading numbers

The integer and floating-point numerals that conversions accept. The whole text has to be a numeral.
-/

namespace HostScript.Decimal

/-- An optional sign, and what follows it. -/
def splitSign : List Char → Bool × List Char
  | '-' :: cs => (true, cs)
  | '+' :: cs => (false, cs)
  | cs => (false, cs)

/-- An optional sign and one or more decimal digits, denoting a 32-bit integer. -/
def int32? (cs : List Char) : Option Int32 :=
  let (negative, ds) := splitSign cs
  if ds.isEmpty || !ds.all Char.isDigit then none
  else
    let n := value 10 ds
    if negative then
      if n ≤ 0x80000000 then some (Int32.ofInt (-n)) else none
    else if n < 0x80000000 then some (Int32.ofNat n)
    else none

/-- An optional exponent: nothing, or `e` with an optional sign and one or more digits. -/
def exponent? : List Char → Option Int
  | [] => some 0
  | c :: cs =>
    if c = 'e' ∨ c = 'E' then
      let (negative, ds) := splitSign cs
      if ds.isEmpty || !ds.all Char.isDigit then none
      else some (if negative then -(value 10 ds : Int) else value 10 ds)
    else none

/-- Digits with an optional point and an optional exponent; there is at least one digit beside the
point. -/
def unsigned? (negative : Bool) (cs : List Char) : Option Float32 :=
  let whole := cs.takeWhile Char.isDigit
  let rest := cs.dropWhile Char.isDigit
  let (places, rest) :=
    match rest with
    | '.' :: r => (r.takeWhile Char.isDigit, r.dropWhile Char.isDigit)
    | r => ([], r)
  let ds := whole ++ places
  if ds.isEmpty then none
  else
    (exponent? rest).map fun e =>
      Binary32.ofDecimal negative (value 10 ds) (e - places.length)

/-- The names of the values that have no digits, in any case. -/
def named? (negative : Bool) (cs : List Char) : Option Float32 :=
  let name := cs.map Char.toLower
  if name = "nan".toList then some (Float32.ofBits 0x7FC00000)
  else if name = "inf".toList ∨ name = "infinity".toList then
    some (Binary32.ofRatio negative (Nat.pow 10 60) 1)
  else none

/-- The single-precision value nearest to a floating-point numeral. -/
def float32? (cs : List Char) : Option Float32 :=
  let (negative, body) := splitSign cs
  (unsigned? negative body).orElse fun _ => named? negative body

end HostScript.Decimal
