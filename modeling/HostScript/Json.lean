import HostScript.Decimal

/-!
# JSON values

The values that diagnostics are exchanged as. Natural numbers are kept apart from other numbers,
which no field of a diagnostic takes; these keep their literal. Members of an object stay in order.
There is a reader for number literals, and a test for one that is too large to be held as a number.
-/

namespace HostScript

inductive Json where
  | null
  | bool (b : Bool)
  | natural (n : Nat)
  | number (literal : String)
  | string (s : String)
  | array (items : List Json)
  | object (members : List (String × Json))
deriving Repr, Inhabited, BEq

namespace Json

/-- The part of a number behind the point, if there is one. -/
def fraction? : List Char → Option (List Char × List Char)
  | '.' :: cs =>
    let ds := cs.takeWhile Char.isDigit
    if ds.isEmpty then none else some ('.' :: ds, cs.dropWhile Char.isDigit)
  | cs => some ([], cs)

/-- The exponent of a number, if there is one. -/
def exponent? : List Char → Option (List Char × List Char)
  | [] => some ([], [])
  | c :: cs =>
    if c = 'e' ∨ c = 'E' then
      let (s, cs) :=
        match cs with
        | '+' :: r => (['+'], r)
        | '-' :: r => (['-'], r)
        | r => ([], r)
      let ds := cs.takeWhile Char.isDigit
      if ds.isEmpty then none else some (c :: s ++ ds, cs.dropWhile Char.isDigit)
    else some ([], c :: cs)

/-- The integer that an exponent denotes. -/
def exponentValue : List Char → Int
  | [] => 0
  | _ :: '-' :: ds => -(Decimal.value 10 ds : Int)
  | _ :: '+' :: ds => Decimal.value 10 ds
  | _ :: ds => Decimal.value 10 ds

/-- The significand `n` continued by digits, up to the first that does not fit into 64 bits, and how
many digits it was continued by. -/
def significand (n : Nat) : List Char → Nat × Nat
  | [] => (n, 0)
  | c :: cs =>
    let next := n * 10 + Decimal.digitValue c
    if next < 0x10000000000000000 then
      let (s, taken) := significand next cs
      (s, taken + 1)
    else (n, 0)

/-- Whether a number is past every finite double-precision value. The digits in front of the point
that the significand does not take still count as places. -/
def isTooLarge (whole fraction : List Char) (exponent : Int) : Bool :=
  let (s, taken) := significand 0 whole
  let (s, places) := significand s fraction
  Decimal.Binary64.overflows s (exponent + (whole.length - taken : Nat) - places)

/-- A number; no digit follows a leading zero. Where the number is `kept`, it is refused if it is
too large. -/
def number? (kept : Bool) (cs : List Char) : Option (Json × List Char) :=
  let (minus, cs) :=
    match cs with
    | '-' :: r => (['-'], r)
    | r => ([], r)
  let ds := cs.takeWhile Char.isDigit
  if ds.isEmpty || (ds.head? == some '0' && ds.length > 1) then none
  else
    match fraction? (cs.dropWhile Char.isDigit) with
    | none => none
    | some (f, rest) =>
      match exponent? rest with
      | none => none
      | some (e, rest) =>
        if kept && isTooLarge ds (f.drop 1) (exponentValue e) then none
        else if minus.isEmpty && f.isEmpty && e.isEmpty then
          some (.natural (Decimal.value 10 ds), rest)
        else some (.number (String.ofList (minus ++ ds ++ f ++ e)), rest)

end Json

end HostScript
