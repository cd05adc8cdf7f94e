import Views.Text.Shapeless

/-!
# Quoted text

Error messages and the description of a context show a text between quotes: a quote and a backslash
get a backslash in front, the common controls have their letters, and a character without a shape
of its own is written by its number in hexadecimal.
-/

set_option autoImplicit false

namespace Views.Text

/-- A number in lower-case hexadecimal, without leading zeros. -/
def hex (n : Nat) : String := String.ofList (Nat.toDigits 16 n)

/-- The form of one character inside quotes. -/
def quoteChar (c : Char) : String :=
  if c = '\x00' then "\\0"
  else if c = '\t' then "\\t"
  else if c = '\n' then "\\n"
  else if c = '\r' then "\\r"
  else if c = '\x22' then "\\\""
  else if c = '\\' then "\\\\"
  else if isShapeless c then "\\u\x7b" ++ hex c.toNat ++ "\x7d"
  else c.toString

/-- A text between quotes. -/
def quote (s : String) : String := "\"" ++ String.join (s.toList.map quoteChar) ++ "\""

end Views.Text
