/-!
# Binary floating-point numbers

A number of a binary interchange format is its bit pattern: a sign bit, a biased exponent
field and a fraction field.  Two formats are used, `Format.double` and `Format.single`;
nothing below depends on which one it is.

**Meaning.**  A finite number stands for `± significand · 2 ^ scale`, with both given by
integers.  `nearest` goes the other way: it finds the number closest to a fraction, with
ties to the even significand, in exact integer arithmetic.
-/

namespace ScriptCore

/-- The widths of the fraction field and of the exponent field. -/
structure Format where
  fractionBits : Nat
  exponentBits : Nat
  deriving DecidableEq, Repr

namespace Format

/-- Eight-byte numbers. -/
def double : Format := ⟨52, 11⟩

/-- Four-byte numbers. -/
def single : Format := ⟨23, 8⟩

/-- The number of bits, sign included. -/
def width (f : Format) : Nat := f.fractionBits + f.exponentBits + 1

/-- The exponent field of infinities and of values that are not numbers. -/
def topExponent (f : Format) : Nat := 1 <<< f.exponentBits - 1

/-- The powers of two from this exponent on are out of range. -/
def range (f : Format) : Nat := 1 <<< (f.exponentBits - 1)

/-- The scale of the numbers closest to zero. -/
def minScale (f : Format) : Int := 2 - (f.range : Int) - f.fractionBits

end Format

/-- A number of a given format. -/
structure Floating (f : Format) where
  bits : BitVec f.width
  deriving DecidableEq, Repr

/-- Eight-byte numbers. -/
abbrev Double : Type := Floating Format.double

/-- Four-byte numbers. -/
abbrev Single : Type := Floating Format.single

/-- The integer nearest to a fraction; a half goes to the even neighbour. -/
def roundHalfEven (num den : Nat) : Nat :=
  let q := num / den
  let r := num % den
  if 2 * r < den then q
  else if 2 * r = den then q + q % 2
  else q + 1

namespace Floating

variable {f : Format}

/-- The number with a bit pattern; bits beyond the width are dropped. -/
def ofBits (n : Nat) : Floating f := ⟨BitVec.ofNat _ n⟩

/-- The bit pattern as an integer. -/
def toBits (x : Floating f) : Nat := x.bits.toNat

def fractionField (x : Floating f) : Nat := x.toBits % 1 <<< f.fractionBits

def exponentField (x : Floating f) : Nat :=
  x.toBits >>> f.fractionBits % 1 <<< f.exponentBits

/-- The sign bit is set. -/
def isNegative (x : Floating f) : Bool :=
  1 <<< (f.fractionBits + f.exponentBits) ≤ x.toBits

def isNaN (x : Floating f) : Bool :=
  x.exponentField = f.topExponent ∧ x.fractionField ≠ 0

def isInfinite (x : Floating f) : Bool :=
  x.exponentField = f.topExponent ∧ x.fractionField = 0

/-- One of the two zeros. -/
def isZero (x : Floating f) : Bool :=
  x.exponentField = 0 ∧ x.fractionField = 0

/-- Numeric equality: the zeros are equal, and what is not a number equals nothing. -/
def equal (x y : Floating f) : Bool :=
  !x.isNaN && !y.isNaN && (x == y || (x.isZero && y.isZero))

/-- The integer factor of a finite number. -/
def significand (x : Floating f) : Nat :=
  if x.exponentField = 0 then x.fractionField
  else 1 <<< f.fractionBits + x.fractionField

/-- The power of two that a finite number's significand is multiplied with. -/
def scale (x : Floating f) : Int :=
  f.minScale + (x.exponentField - 1 : Nat)

/-- The number with a sign and the bits below the sign. -/
def ofMagnitude (negative : Bool) (magnitude : Nat) : Floating f :=
  ofBits ((if negative then 1 <<< (f.fractionBits + f.exponentBits) else 0) + magnitude)

/-- A zero with a sign. -/
def zero (negative : Bool) : Floating f := ofMagnitude negative 0

/-- An infinity with a sign. -/
def infinity (negative : Bool) : Floating f :=
  ofMagnitude negative (f.topExponent <<< f.fractionBits)

/-- What is not a number, with a sign and the first bit of the fraction set. -/
def nan (negative : Bool) : Floating f :=
  ofMagnitude negative (f.topExponent <<< f.fractionBits + 1 <<< (f.fractionBits - 1))

/-- The fraction `num / den` divided by `2 ^ s`, as numerator and denominator. -/
def descale (num den : Nat) (s : Int) : Nat × Nat :=
  (num <<< (-s).toNat, den <<< s.toNat)

/-- The scale at which the significand of `num / den` fills its width, or the smallest
scale for fractions below the normal range. -/
def scaleOf (f : Format) (num den : Nat) : Int :=
  let low := max f.minScale ((num.log2 : Int) - den.log2 - f.fractionBits - 1)
  let (n, d) := descale num den low
  if n / d < 1 <<< (f.fractionBits + 1) then low else low + 1

/-- The number closest to `± num / den`, with ties to the even significand.  From half a
unit above the largest finite number on, this is an infinity.

Adding the scale's distance from the smallest scale to the exponent field leaves room for
a significand that rounding carried to the next power of two. -/
def nearest (negative : Bool) (num den : Nat) : Floating f :=
  if num = 0 then zero negative
  else
    let s := scaleOf f num den
    let (n, d) := descale num den s
    let magnitude := (s - f.minScale).toNat <<< f.fractionBits + roundHalfEven n d
    ofMagnitude negative (min magnitude (f.topExponent <<< f.fractionBits))

end Floating
end ScriptCore
