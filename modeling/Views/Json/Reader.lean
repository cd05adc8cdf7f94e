import Views.Json.Numeral
import Views.Json.Text
import Views.Text.Leading
import Views.Value

/-!
# Reading JSON

`read?` accepts one strict JSON value with nothing behind it but blanks, nested at most 127 levels
deep. Of two fields with one key the last counts.
-/

set_option autoImplicit false

namespace Views.Json

/-- A blank between the parts of a JSON text. -/
def isBlank (c : Char) : Bool := c == ' ' || c == '\n' || c == '\t' || c == '\r'

/-- Drops blanks. -/
def skip (s : List Char) : List Char := s.dropWhile isBlank

mutual

/-- Reads a value and gives the text behind it; `depth` more levels may be opened. -/
def value? (depth : Nat) (s : List Char) : Option (Value × List Char) :=
  match skip s with
  | 'n' :: rest => (Text.dropWord? ['u', 'l', 'l'] rest).map fun after => (.null, after)
  | 't' :: rest => (Text.dropWord? ['r', 'u', 'e'] rest).map fun after => (.bool true, after)
  | 'f' :: rest => (Text.dropWord? ['a', 'l', 's', 'e'] rest).map fun after => (.bool false, after)
  | '\x22' :: rest =>
    (decodeText? rest).map fun (text, after) => (.string (String.ofList text), after)
  | '[' :: rest =>
    match depth with
    | 0 => none
    | depth + 1 =>
      match skip rest with
      | ']' :: after => some (.array [], after)
      | s => (items? depth s.length s).map fun (xs, after) => (.array xs, after)
  | '\x7b' :: rest =>
    match depth with
    | 0 => none
    | depth + 1 =>
      match skip rest with
      | '\x7d' :: after => some (.object [], after)
      | s => (fields? depth s.length s).map fun (fs, after) => (.object (Table.ofList fs), after)
  | s => (numeral? s).map fun (n, after) => (.number n, after)
termination_by (depth, 0)

/-- Reads the elements of an array up to its bracket; `fuel` bounds their number. -/
def items? (depth fuel : Nat) (s : List Char) : Option (List Value × List Char) :=
  match fuel with
  | 0 => none
  | fuel + 1 =>
    match value? depth s with
    | none => none
    | some (x, rest) =>
      match skip rest with
      | ']' :: after => some ([x], after)
      | ',' :: more => (items? depth fuel more).map fun (xs, after) => (x :: xs, after)
      | _ => none
termination_by (depth, fuel)

/-- Reads the fields of an object up to its brace; `fuel` bounds their number. -/
def fields? (depth fuel : Nat) (s : List Char) : Option (List (String × Value) × List Char) :=
  match fuel with
  | 0 => none
  | fuel + 1 =>
    match skip s with
    | '\x22' :: rest =>
      match decodeText? rest with
      | none => none
      | some (key, rest) =>
        match skip rest with
        | ':' :: rest =>
          match value? depth rest with
          | none => none
          | some (v, rest) =>
            match skip rest with
            | '\x7d' :: after => some ([(String.ofList key, v)], after)
            | ',' :: more =>
              (fields? depth fuel more).map fun (fs, after) => ((String.ofList key, v) :: fs, after)
            | _ => none
        | _ => none
    | _ => none
termination_by (depth, fuel)

end

/-- The number of levels that a text may open. -/
def maxDepth : Nat := 127

/-- Reads a text that holds one value. -/
def read? (text : String) : Option Value :=
  match value? maxDepth text.toList with
  | some (v, rest) => if (skip rest).isEmpty then some v else none
  | none => none

end Views.Json
