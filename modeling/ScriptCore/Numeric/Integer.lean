import ScriptCore.Numeric.Decimal

/-!
# Integer numerals

An integer numeral is an optional sign and at least one digit.  A numeral without a minus
sign is also a natural numeral.
-/

namespace ScriptCore
namespace Integer

/-- A run of digits that takes up the whole text. -/
def readDigits? (cs : List Char) : Option Nat :=
  if !cs.isEmpty && cs.all Char.isDigit then some (digitsValue cs 0) else none

/-- Read an integer numeral. -/
def read? (text : String) : Option Int :=
  match text.toList with
  | '-' :: cs => (readDigits? cs).map fun n : Nat => -(n : Int)
  | '+' :: cs => (readDigits? cs).map Int.ofNat
  | cs => (readDigits? cs).map Int.ofNat

/-- Read a natural numeral, with an optional plus sign. -/
def readNat? (text : String) : Option Nat :=
  match text.toList with
  | '+' :: cs => readDigits? cs
  | cs => readDigits? cs

/-- The word with a value, if the value fits. -/
def toWord? (n : Int) : Option Int64 :=
  if Int64.minValue.toInt ≤ n ∧ n ≤ Int64.maxValue.toInt then some (Int64.ofInt n) else none

/-- Read an integer numeral whose value fits a word. -/
def readWord? (text : String) : Option Int64 :=
  (read? text).bind toWord?

end Integer
end ScriptCore
