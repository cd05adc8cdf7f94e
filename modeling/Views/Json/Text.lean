import Views.Text.Quoted

/-!
# Texts in JSON

`encodeText` writes a text between quotes with the short escapes where there are some; `decodeText?`
reads the part after the opening quote. A character beyond the basic plane is read from a pair of
surrogate escapes; half a pair and a raw control character are refused.
-/

set_option autoImplicit false

namespace Views.Json

/-- The form of one character between quotes. -/
def encodeChar (c : Char) : String :=
  if c = '\x22' then "\\\""
  else if c = '\\' then "\\\\"
  else if c = '\x08' then "\\b"
  else if c = '\x0c' then "\\f"
  else if c = '\n' then "\\n"
  else if c = '\r' then "\\r"
  else if c = '\t' then "\\t"
  else if c.toNat < 0x10 then "\\u000" ++ Text.hex c.toNat
  else if c.toNat < 0x20 then "\\u00" ++ Text.hex c.toNat
  else c.toString

/-- A text between quotes. -/
def encodeText (s : String) : String := "\"" ++ String.join (s.toList.map encodeChar) ++ "\""

/-- The value of a character as a hexadecimal digit. -/
def hexValue? (c : Char) : Option Nat :=
  if '0' ≤ c ∧ c ≤ '9' then some (c.toNat - 48)
  else if 'a' ≤ c ∧ c ≤ 'f' then some (c.toNat - 87)
  else if 'A' ≤ c ∧ c ≤ 'F' then some (c.toNat - 55)
  else none

/-- The number of four hexadecimal digits. -/
def hexValue4? (a b c d : Char) : Option Nat := do
  let a ← hexValue? a
  let b ← hexValue? b
  let c ← hexValue? c
  let d ← hexValue? d
  return ((a * 16 + b) * 16 + c) * 16 + d

/-- The character that a letter stands for behind a backslash. -/
def shortEscape? (c : Char) : Option Char :=
  if c = '\x22' ∨ c = '\\' ∨ c = '/' then some c
  else if c = 'b' then some '\x08'
  else if c = 'f' then some '\x0c'
  else if c = 'n' then some '\n'
  else if c = 'r' then some '\r'
  else if c = 't' then some '\t'
  else none

/-- Reads up to the closing quote; gives the text and what follows the quote. -/
def decodeText? (s : List Char) : Option (List Char × List Char) :=
  match s with
  | [] => none
  | '\\' :: 'u' :: a :: b :: c :: d :: rest =>
    match hexValue4? a b c d with
    | none => none
    | some n =>
      if 0xdc00 ≤ n ∧ n ≤ 0xdfff then none
      else if 0xd800 ≤ n ∧ n ≤ 0xdbff then
        match rest with
        | '\\' :: 'u' :: e :: f :: g :: h :: rest =>
          match hexValue4? e f g h with
          | none => none
          | some m =>
            if 0xdc00 ≤ m ∧ m ≤ 0xdfff then
              (decodeText? rest).map fun (text, after) =>
                (Char.ofNat (0x10000 + (n - 0xd800) * 0x400 + (m - 0xdc00)) :: text, after)
            else none
        | _ => none
      else (decodeText? rest).map fun (text, after) => (Char.ofNat n :: text, after)
  | '\\' :: c :: rest =>
    match shortEscape? c with
    | none => none
    | some e => (decodeText? rest).map fun (text, after) => (e :: text, after)
  | c :: rest =>
    if c = '\x22' then some ([], rest)
    else if c.toNat < 0x20 then none
    else (decodeText? rest).map fun (text, after) => (c :: text, after)

end Views.Json
