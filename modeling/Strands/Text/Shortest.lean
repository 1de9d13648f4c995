/-
The shortest decimal that reads back as a binary64 number.

A positive number is `m * 2 ^ q`.  The reals that round to it lie between the
halves towards its neighbours, those ends included when `m` is even.  Grids of
decimals are tried from the coarsest on; on each the two points beside the number
are looked at, and the first grid that has one of them between the ends wins, the
nearer point if it has both, and the greater one if they are equally near.
-/
import Strands.Binary64

namespace Strands.Text

/-- The decimal `digits * 10 ^ exponent`. -/
structure Decimal where
  digits : Nat
  exponent : Int
  deriving DecidableEq, Inhabited

/-- A positive finite number in quarters of its last place: the number, the ends
of the reals that round to it, whether the ends do, and the power of two that
all three are to be multiplied by. -/
structure Rounding where
  low : Nat
  value : Nat
  high : Nat
  closed : Bool
  exponent : Int

/-- The rounding of the number whose bits are given, its sign aside. -/
def Rounding.ofBits (x : Binary64) : Rounding :=
  let fraction := (x &&& 0x000fffffffffffff).toNat
  let biased := (x.magnitude >>> 52).toNat
  let m := if biased = 0 then fraction else 0x10000000000000 + fraction
  let q : Int := (if biased = 0 then 1 else biased) - 1075
  { low := if fraction = 0 ∧ 1 < biased then 4 * m - 1 else 4 * m - 2
    value := 4 * m
    high := 4 * m + 2
    closed := m % 2 = 0
    exponent := q - 2 }

/-- The natural numbers in the ratio of `a * 2 ^ p` to `b * 10 ^ e`. -/
def ratio (a : Nat) (p : Int) (b : Nat) (e : Int) : Nat × Nat :=
  (a * .pow 2 p.toNat * .pow 10 (-e).toNat, b * .pow 10 e.toNat * .pow 2 (-p).toNat)

/-- Whether a point of the grid of exponent `e` rounds to the number. -/
def Rounding.holds (r : Rounding) (d : Nat) (e : Int) : Bool :=
  let low := ratio r.low r.exponent d e
  let high := ratio r.high r.exponent d e
  if r.closed then low.1 ≤ low.2 && high.2 ≤ high.1 else low.1 < low.2 && high.2 < high.1

/-- The point of the grid of exponent `e` that is chosen for the number, if one is. -/
def Rounding.onGrid (r : Rounding) (e : Int) : Option Nat :=
  let (num, den) := ratio r.value r.exponent 1 e
  let below := num / den
  let rest := num % den
  match 0 < below && r.holds below e, r.holds (below + 1) e with
  | true, true =>
    if 2 * rest < den then some below else some (below + 1)
  | true, false => some below
  | false, true => some (below + 1)
  | false, false => none

/-- The chosen point of the first grid that has one, from exponent `e` downwards. -/
def Rounding.search (r : Rounding) : Nat → Int → Decimal
  | 0, e => ⟨0, e⟩
  | fuel + 1, e =>
    match r.onGrid e with
    | some d => ⟨d, e⟩
    | none => r.search fuel (e - 1)

/-- The shortest decimal for the magnitude of a finite number other than zero.  No
such number reaches `10 ^ 309`, and all are multiples of a power of ten above
`10 ^ -1075`. -/
def shortest (x : Binary64) : Decimal := (Rounding.ofBits x).search 1385 309

/-- The digits with the point after the first of them, and the power of ten. -/
def scientific (d : Decimal) : String :=
  let digits := Nat.toDigits 10 d.digits
  let exponent := d.exponent + (digits.length - 1 : Nat)
  match digits with
  | [] => ""
  | [c] => s!"{c}e{exponent}"
  | c :: cs => s!"{c}.{String.ofList cs}e{exponent}"

/-- The digits in their places, with at least one after the point. -/
def positional (d : Decimal) : String :=
  let digits := Nat.toDigits 10 d.digits
  if 0 ≤ d.exponent then
    String.ofList (digits ++ List.replicate d.exponent.toNat '0') ++ ".0"
  else
    let places := (-d.exponent).toNat
    let padded := List.replicate (places + 1 - digits.length) '0' ++ digits
    let whole := padded.length - places
    s!"{String.ofList (padded.take whole)}.{String.ofList (padded.drop whole)}"

/-- A number as it is shown: by its digits in their places from one ten-thousandth
up to below ten to the sixteenth, and with a power of ten beyond. -/
def showFloat (x : Binary64) : String :=
  if x.isNaN then "NaN"
  else
    let sign := if x >>> 63 = 1 then "-" else ""
    if x.magnitude = 0x7ff0000000000000 then sign ++ "inf"
    else if x.isZero then sign ++ "0.0"
    else
      let d := shortest x
      let top := d.exponent + ((Nat.toDigits 10 d.digits).length : Nat)
      sign ++ (if -3 ≤ top ∧ top ≤ 16 then positional d else scientific d)

end Strands.Text
