/-
Equality of IEEE-754 binary64 numbers, on their bit patterns.

A float is kept as its 64 bits.  Two patterns denote equal numbers when neither
is a NaN and they are the same bits or both are zeros.  So equality is not
reflexive at a NaN, and it identifies the two zeros, which differ in sign alone.
-/
namespace Strands

/-- The sixty-four bits of a binary64 number, sign first. -/
abbrev Binary64 := UInt64

namespace Binary64

def magnitude (x : Binary64) : UInt64 := x &&& 0x7fffffffffffffff

/-- A NaN has all exponent bits set and a nonzero fraction, so its magnitude
exceeds that of infinity. -/
def isNaN (x : Binary64) : Bool := 0x7ff0000000000000 < x.magnitude

/-- Both zeros have magnitude zero. -/
def isZero (x : Binary64) : Bool := x.magnitude == 0

/-- The pattern that stands for every NaN when numbers are written out. -/
def quietNaN : Binary64 := 0x7ff8000000000000

/-- The pattern written out for a number: all NaNs share one. -/
def canonical (x : Binary64) : Binary64 := if x.isNaN then quietNaN else x

/-- IEEE equality. -/
def same (x y : Binary64) : Bool :=
  !x.isNaN && !y.isNaN && (x == y || (x.isZero && y.isZero))

end Binary64
end Strands
