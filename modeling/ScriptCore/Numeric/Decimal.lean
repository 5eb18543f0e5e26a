import ScriptCore.Numeric.Floating

/-!
# Decimal numerals

**Reading.**  A decimal numeral is an optional sign, digits with at most one point among
them or at either end, and an optional exponent.  `Decimal.read?` accepts exactly these,
and `Decimal.toFloating` finds the nearest binary number.  `Floating.read?` takes the words for
infinity and for what is not a number besides.

**Writing.**  `Floating.toFixed` shows a number with a fixed count of places after the
point, rounded from its exact value.
-/

namespace ScriptCore

/-- The value `± coefficient · 10 ^ exponent`. -/
structure Decimal where
  negative : Bool
  coefficient : Nat
  exponent : Int
  deriving DecidableEq, Repr

/-- The integer that a list of digits denotes, on top of the digits already read. -/
def digitsValue (digits : List Char) (acc : Nat) : Nat :=
  digits.foldl (fun n c => 10 * n + (c.toNat - '0'.toNat)) acc

namespace Decimal

/-- Split a sign off. -/
def takeSign : List Char → Bool × List Char
  | '-' :: rest => (true, rest)
  | '+' :: rest => (false, rest)
  | cs => (false, cs)

/-- The longest run of digits at the front, and the rest. -/
def takeDigits (cs : List Char) : List Char × List Char :=
  (cs.takeWhile Char.isDigit, cs.dropWhile Char.isDigit)

/-- Digits of an exponent count until it is this large. -/
def exponentLimit : Nat := 65536

/-- The exponent that a run of digits denotes.  No digits are added to an exponent that has
reached the limit. -/
def exponentValue (digits : List Char) : Nat :=
  digits.foldl
    (fun n c => if n < exponentLimit then 10 * n + (c.toNat - '0'.toNat) else n) 0

/-- The exponent part at the end of a numeral: nothing, or a mark, an optional sign and at
least one digit. -/
def readExponent? : List Char → Option Int
  | [] => some 0
  | mark :: rest =>
      if mark = 'e' ∨ mark = 'E' then
        let (negative, rest) := takeSign rest
        let (digits, rest) := takeDigits rest
        if digits.isEmpty ∨ !rest.isEmpty then none
        else
          let value : Int := exponentValue digits
          some (if negative then -value else value)
      else none

/-- The fraction part: the digits after a point, or none without a point. -/
def takeFraction : List Char → List Char × List Char
  | '.' :: rest => takeDigits rest
  | cs => ([], cs)

/-- Read a decimal numeral that takes up the whole text. -/
def read? (text : String) : Option Decimal :=
  let (negative, cs) := takeSign text.toList
  let (whole, cs) := takeDigits cs
  let (fraction, cs) := takeFraction cs
  if whole.isEmpty ∧ fraction.isEmpty then none
  else
    (readExponent? cs).map fun e =>
      { negative
        coefficient := digitsValue (whole ++ fraction) 0
        exponent := e - fraction.length }

/-- The number of digits of the coefficient. -/
def digitCount (d : Decimal) : Nat := (Nat.toDigits 10 d.coefficient).length

/-- The binary number nearest to a decimal.  A decimal whose leading digit lies far outside
the range of the format is an infinity or a zero without any power of ten being formed:
a power of ten is at least the power of two with three times its exponent. -/
def toFloating (f : Format) (d : Decimal) : Floating f :=
  let top : Int := d.digitCount + d.exponent
  if d.coefficient = 0 then Floating.zero d.negative
  else if (f.range : Int) ≤ 3 * (top - 1) then Floating.infinity d.negative
  else if 3 * top < f.minScale then Floating.zero d.negative
  else
    Floating.nearest d.negative
      (d.coefficient * Nat.pow 10 d.exponent.toNat) (Nat.pow 10 (-d.exponent).toNat)

end Decimal

namespace Floating

/-- The words for an infinity and for what is not a number, in any case. -/
def ofWord? {f : Format} (negative : Bool) (word : List Char) : Option (Floating f) :=
  let lower := word.map Char.toLower
  if lower = "inf".toList ∨ lower = "infinity".toList then some (infinity negative)
  else if lower = "nan".toList then some (nan negative)
  else none

/-- The number of a format that a text denotes: a decimal numeral, or a word after an
optional sign. -/
def read? (f : Format) (text : String) : Option (Floating f) :=
  match Decimal.read? text with
  | some d => some (d.toFloating f)
  | none =>
      let (negative, word) := Decimal.takeSign text.toList
      ofWord? negative word

/-- The digits of `n`, padded with zeros in front to a least count. -/
def paddedDigits (count n : Nat) : String :=
  let digits := Nat.toDigits 10 n
  String.ofList (List.replicate (count - digits.length) '0' ++ digits)

/-- The exact value with a fixed count of places after the point, where a half of the last
place goes to the even digit.  A sign is written for negative numbers, zero included. -/
def toFixed {f : Format} (places : Nat) (x : Floating f) : String :=
  if x.isNaN then "NaN"
  else
    let sign := if x.isNegative then "-" else ""
    if x.isInfinite then sign ++ "inf"
    else
      let unit := Nat.pow 10 places
      let n := roundHalfEven ((x.significand * unit) <<< x.scale.toNat) (1 <<< (-x.scale).toNat)
      sign ++ toString (n / unit) ++ "." ++ paddedDigits places (n % unit)

end Floating
end ScriptCore
