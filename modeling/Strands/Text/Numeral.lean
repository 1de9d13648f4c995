/-
Decimal numerals with an optional plus sign, as counts are written.

A numeral is one or more ASCII digits, after at most one `+`.  Leading zeros are
allowed.  A count has to be positive and to fit a machine word.
-/
import Strands.Text.Blank

namespace Strands.Text

def digit? (c : Char) : Option Nat :=
  if '0' ≤ c ∧ c ≤ '9' then some (c.toNat - '0'.toNat) else none

/-- The number that digits stand for after a part that stands for `acc`. -/
def digitsFrom (acc : Nat) : List Char → Option Nat
  | [] => some acc
  | c :: cs =>
    match digit? c with
    | some d => digitsFrom (10 * acc + d) cs
    | none => none

/-- The number a nonempty list of digits stands for. -/
def digits? : List Char → Option Nat
  | [] => none
  | c :: cs => digitsFrom 0 (c :: cs)

def numeral? : List Char → Option Nat
  | '+' :: cs => digits? cs
  | cs => digits? cs

/-- The first number that does not fit a machine word. -/
def wordLimit : Nat := 0x10000000000000000

/-- The count a text stands for, white space at its ends aside. -/
def count? (text : String) : Option Nat :=
  match numeral? (strip text.toList) with
  | some n => if 0 < n ∧ n < wordLimit then some n else none
  | none => none

end Strands.Text
