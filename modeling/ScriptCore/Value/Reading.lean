import ScriptCore.Value.Basic
import ScriptCore.Text.Blank

/-!
# Reading values from text

`Value.ofText` takes any text: the words for null and the booleans, an integer numeral that
fits a word, a decimal numeral, and otherwise the text itself.  The other readers ask for
one type and refuse what does not denote a value of it.  Spellings of infinity and of what
is not a number are never numbers.
-/

namespace ScriptCore

/-- Characters that a decimal numeral consists of. -/
def isNumeralChar (c : Char) : Bool :=
  c.isDigit || c == '.' || c == '-' || c == '+' || c == 'e' || c == 'E'

/-- The text has a digit and consists of numeral characters. -/
def looksNumeric (text : String) : Bool :=
  text.toList.any Char.isDigit && text.toList.all isNumeralChar

/-- The number of a format that a text denotes, if the text is not a word. -/
def readFloating? (f : Format) (text : String) : Option (Floating f) :=
  if looksNumeric text then Floating.read? f text else none

namespace Value

/-- The value that a text denotes, whatever its type. -/
def ofText (text : String) : Value :=
  if text = "null" then null
  else if text = "true" then bool true
  else if text = "false" then bool false
  else
    match Integer.readWord? text with
    | some n => int n
    | none =>
        match readFloating? .double text with
        | some x => double x
        | none => string text

/-- The data that was read, or the refusal that names the whole text. -/
def orInvalid {α : Type} (text : String) (target : Tag) (make : α → Value) :
    Option α → Except Error Value
  | some a => .ok (make a)
  | none => .error (Error.of (.invalidConversion text target))

/-- An integer, with white space around it. -/
def readInt (text : String) : Except Error Value :=
  orInvalid text .int int (Integer.readWord? (stripBlanks text))

/-- An eight-byte number, with white space around it. -/
def readDouble (text : String) : Except Error Value :=
  orInvalid text .double double (readFloating? .double (stripBlanks text))

/-- A four-byte number, with white space around it. -/
def readFloat (text : String) : Except Error Value :=
  orInvalid text .float float (readFloating? .single (stripBlanks text))

/-- The boolean that a word denotes, in any case. -/
def boolOfWord? (word : String) : Option Bool :=
  let lower := word.map Char.toLower
  if lower = "true" ∨ lower = "1" then some true
  else if lower = "false" ∨ lower = "0" then some false
  else none

/-- A boolean, without white space around it. -/
def readBool (text : String) : Except Error Value :=
  orInvalid text .bool bool (boolOfWord? text)

end Value
end ScriptCore
