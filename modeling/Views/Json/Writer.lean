import Views.Json.Text
import Views.Value

/-!
# Compact JSON

The text of a value without blanks, fields in the order of the object.
-/

set_option autoImplicit false

namespace Views.Json

mutual

/-- The compact text of a value. -/
def write : Value → String
  | .null => "null"
  | .bool b => if b then "true" else "false"
  | .number n => n.toText
  | .string s => encodeText s
  | .array xs => "[" ++ writeItems xs ++ "]"
  | .object fs => "\x7b" ++ writeFields fs ++ "\x7d"

/-- The texts of elements, between commas. -/
def writeItems : List Value → String
  | [] => ""
  | [x] => write x
  | x :: y :: rest => write x ++ "," ++ writeItems (y :: rest)

/-- The texts of fields, between commas. -/
def writeFields : List (String × Value) → String
  | [] => ""
  | [(k, v)] => encodeText k ++ ":" ++ write v
  | (k, v) :: f :: rest => encodeText k ++ ":" ++ write v ++ "," ++ writeFields (f :: rest)

end

end Views.Json
