/-!
# Blank characters

Notions of white space: `isBlank` is the Unicode property, used where a text is trimmed or a marker
is matched; `isLineBlank` is a space or a tab, which may stand beside a tag that has a line of its
own, and `isLineBreak` ends a line. Texts are lists of characters here.
-/

set_option autoImplicit false

namespace Views.Text

/-- The Unicode property `White_Space`. -/
def isBlank (c : Char) : Bool :=
  let n := c.toNat
  (0x09 ≤ n && n ≤ 0x0d) || n == 0x20 || n == 0x85 || n == 0xa0 || n == 0x1680 ||
    (0x2000 ≤ n && n ≤ 0x200a) || n == 0x2028 || n == 0x2029 || n == 0x202f || n == 0x205f ||
    n == 0x3000

/-- A space or a tab. -/
def isLineBlank (c : Char) : Bool := c == ' ' || c == '\t'

/-- A newline or a carriage return, which end a line. -/
def isLineBreak (c : Char) : Bool := c == '\n' || c == '\r'

/-- Removes the characters in front that satisfy `p`. -/
def trimStart (p : Char → Bool) (s : List Char) : List Char := s.dropWhile p

/-- Removes the characters at the end that satisfy `p`. -/
def trimEnd (p : Char → Bool) (s : List Char) : List Char := (s.reverse.dropWhile p).reverse

end Views.Text
