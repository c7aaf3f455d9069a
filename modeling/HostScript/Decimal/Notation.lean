import HostScript.Decimal

/-!
# Texts of single-precision values

The shortest decimal of a value is the one with the fewest digits among those that round to it. All arithmetic
is exact: a decimal `c · 10 ^ g` is compared with the ends of the interval of reals that round to the value.
There are three notations: a fixed number of places, the shortest digits written positionally, and the
shortest digits with an exponent for very large and very small values.
-/

namespace HostScript.Decimal

namespace Shortest

/-- How far, in quarters of the last mantissa place, the reals below `mantissa · 2 ^ exponent` still
round to it. Just above a power of two the neighbour below is nearer. -/
def slackBelow (mantissa : Nat) (exponent : Int) : Nat :=
  if mantissa = 0x800000 ∧ Binary32.minExponent < exponent then 1 else 2

/-- The multiple of `10 ^ g` nearest to `mantissa · 2 ^ exponent` among those that round to it. Of
two at the same distance the upper one is taken. -/
def onGrid (mantissa : Nat) (exponent g : Int) : Option Nat :=
  let (p₂, r₂) := twoPow (exponent - 2)
  let (p₁₀, r₁₀) := tenPow g
  let quarter := p₂ * r₁₀
  let unit := p₁₀ * r₂
  let exact := 4 * mantissa * quarter
  let low := exact - slackBelow mantissa exponent * quarter
  let high := exact + 2 * quarter
  let rounds (c : Nat) : Bool :=
    if mantissa % 2 = 0 then low ≤ c * unit && c * unit ≤ high
    else low < c * unit && c * unit < high
  let below := exact / unit
  let above := below + 1
  if rounds below && rounds above then
    some (if 2 * exact < (below + above) * unit then below else above)
  else if rounds below then some below
  else if rounds above then some above
  else none

/-- Powers of ten from the coarsest that can matter to the finest. -/
def grids : List Int :=
  (List.range 100).map fun (i : Nat) => 40 - Int.ofNat i

/-- Digits `c` and power `g` of the shortest decimal `c · 10 ^ g` that rounds to
`mantissa · 2 ^ exponent`, for a mantissa other than zero. -/
def decimal (mantissa : Nat) (exponent : Int) : Nat × Int :=
  (grids.findSome? fun g => (onGrid mantissa exponent g).map (·, g)).getD (0, 0)

end Shortest

/-- Digits with the point set `places` digits from the right, and at least one digit before it. -/
def withPoint (ds : List Char) (places : Nat) : List Char :=
  if places = 0 then ds
  else
    let padded := List.replicate (places + 1 - ds.length) '0' ++ ds
    padded.take (padded.length - places) ++ '.' :: padded.drop (padded.length - places)

/-- The number `c · 10 ^ g` written without an exponent. -/
def positional (c : Nat) (g : Int) : List Char :=
  withPoint (digits c ++ List.replicate g.toNat '0') (-g).toNat

/-- The number `c · 10 ^ g` with one digit before the point and an exponent. -/
def scientific (c : Nat) (g : Int) : List Char :=
  let ds := digits c
  withPoint ds (ds.length - 1) ++ 'e' :: ofInt (g + (ds.length - 1 : Nat))

def sign (negative : Bool) (ds : List Char) : List Char :=
  if negative then '-' :: ds else ds

def notANumber : List Char := ['N', 'a', 'N']

def infinity : List Char := ['i', 'n', 'f']

/-- The exact value rounded to `places` places, a half going to the even neighbour. -/
def fixed (places : Nat) (x : Float32) : List Char :=
  match Binary32.parts x with
  | .nan => notANumber
  | .infinite n => sign n infinity
  | .finite n m e =>
    let (p, r) := twoPow e
    sign n (withPoint (digits (roundHalfEven (m * p * Nat.pow 10 places) r)) places)

/-- The shortest digits that read back, never with an exponent; whole numbers have no point. -/
def plain (x : Float32) : List Char :=
  match Binary32.parts x with
  | .nan => notANumber
  | .infinite n => sign n infinity
  | .finite n m e =>
    if m = 0 then sign n ['0']
    else
      let (c, g) := Shortest.decimal m e
      sign n (positional c g)

/-- The shortest digits that read back. Whole numbers end in `.0`; from `10 ^ 16` on and below
`10 ^ -4` an exponent is written. -/
def general (x : Float32) : List Char :=
  match Binary32.parts x with
  | .nan => notANumber
  | .infinite n => sign n infinity
  | .finite n m e =>
    if m = 0 then sign n ['0', '.', '0']
    else
      let (c, g) := Shortest.decimal m e
      let lead := g + ((digits c).length - 1 : Nat)
      if lead < -4 ∨ 16 ≤ lead then sign n (scientific c g)
      else if 0 ≤ g then sign n (positional c g ++ ['.', '0'])
      else sign n (positional c g)

end HostScript.Decimal
