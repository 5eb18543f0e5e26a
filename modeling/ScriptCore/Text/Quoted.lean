import ScriptCore.Text.Extending
import ScriptCore.Text.Printable

/-!
# Quoted text

Text between double quotes.  Quotes, backslashes and some control characters have short
escapes; every other character that cannot be printed, or that would be drawn into the one
before it, is written as its code point.
-/

namespace ScriptCore

/-- The hexadecimal digits of a character's code point. -/
def hexCode (c : Char) : String := String.ofList (Nat.toDigits 16 c.toNat)

/-- A character as it stands between double quotes. -/
def escapeChar (c : Char) : String :=
  if c = '"' then "\\\""
  else if c = '\\' then "\\\\"
  else if c = '\n' then "\\n"
  else if c = '\t' then "\\t"
  else if c = '\r' then "\\r"
  else if c.toNat = 0 then "\\0"
  else if isExtending c || !isPrintable c then "\\u\x7b" ++ hexCode c ++ "\x7d"
  else c.toString

/-- A text between double quotes. -/
def quoted (text : String) : String :=
  "\"" ++ String.join (text.toList.map escapeChar) ++ "\""

/-- Quoted texts between brackets. -/
def quotedList (texts : List String) : String :=
  "[" ++ ", ".intercalate (texts.map quoted) ++ "]"

end ScriptCore
