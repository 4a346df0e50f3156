import EventScript.Text.Decimal
import EventScript.Text.Visible

/-!
# Quoted text in messages

Messages show a text between double quotes, with escapes for what could not be seen.
-/

namespace EventScript.Text

/-- The brace `{`. -/
def leftBrace : String := "\x7b"

/-- The brace `}`. -/
def rightBrace : String := "\x7d"

/-- A character as it stands in a quoted text. -/
def quotedChar (c : Char) : String :=
  if c = '\x00' then "\\0"
  else if c = '\t' then "\\t"
  else if c = '\r' then "\\r"
  else if c = '\n' then "\\n"
  else if c = '\\' then "\\\\"
  else if c = '"' then "\\\""
  else if isVisible c then String.ofList [c]
  else "\\u" ++ leftBrace ++ hexadecimal c.toNat ++ rightBrace

/-- A text between double quotes, with escapes for quotes, backslashes and what cannot be seen. -/
def quoted (s : String) : String :=
  "\"" ++ String.join (s.toList.map quotedChar) ++ "\""

end EventScript.Text
