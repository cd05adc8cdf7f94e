/-!
# Characters of a YAML text

A cursor moves through a text and counts bytes, lines and columns. A line break is a newline, a
carriage return, both together, or one of the three breaks beyond ASCII; inside of a scalar the
first four read as a newline. `isAllowed` are the characters that a YAML text may contain.
-/

set_option autoImplicit false

namespace Views.Yaml

/-- A character that a text may contain. -/
def isAllowed (c : Char) : Bool :=
  let n := c.toNat
  n == 0x09 || n == 0x0a || n == 0x0d || (0x20 ≤ n && n ≤ 0x7e) || n == 0x85 ||
    (0xa0 ≤ n && n ≤ 0xd7ff) || (0xe000 ≤ n && n ≤ 0xfffd) || 0x10000 ≤ n

/-- A space or a tab. -/
def isBlank (c : Char) : Bool := c == ' ' || c == '\t'

/-- A character that breaks a line. -/
def isBreak (c : Char) : Bool :=
  c == '\n' || c == '\r' || c == '\u0085' || c == '\u2028' || c == '\u2029'

/-- A character of a name. -/
def isNameChar (c : Char) : Bool := c.isAlphanum || c == '_' || c == '-'

/-- The number of bytes of some characters. -/
def byteSize (s : List Char) : Nat := s.foldl (fun n c => n + c.utf8Size) 0

/-- A place in a text. -/
structure Cursor where
  ahead : List Char
  /-- The number of characters of the whole text, which bounds every loop. -/
  size : Nat
  /-- The number of bytes before the cursor. -/
  offset : Nat
  line : Nat
  column : Nat

namespace Cursor

/-- The start of a text. -/
def start (text : List Char) : Cursor := ⟨text, text.length, 0, 0, 0⟩

/-- The next character. -/
def peek? (c : Cursor) : Option Char := c.ahead.head?

/-- Whether the next character satisfies `p`. -/
def nextIs (c : Cursor) (p : Char → Bool) : Bool := c.peek?.any p

/-- Whether the character `n` places ahead is a blank, a break or the end of the text. -/
def isBlankAt (c : Cursor) (n : Nat) : Bool := (c.ahead[n]?).all fun x => isBlank x || isBreak x

/-- Whether the text ahead starts with the given characters. -/
def startsWith (c : Cursor) (s : List Char) : Bool := s.isPrefixOf c.ahead

/-- Moves over some characters that break no line. -/
def skipMany (c : Cursor) (n : Nat) : Cursor :=
  { c with
    ahead := c.ahead.drop n
    offset := c.offset + byteSize (c.ahead.take n)
    column := c.column + n }

/-- Moves over one character that breaks no line. -/
def skip (c : Cursor) : Cursor := c.skipMany 1

/-- The characters ahead that satisfy `p`, which holds of no break, and the place behind them. -/
def takeWhile (c : Cursor) (p : Char → Bool) : List Char × Cursor :=
  let s := c.ahead.takeWhile p
  (s, { c with
    ahead := c.ahead.dropWhile p
    offset := c.offset + byteSize s
    column := c.column + s.length })

/-- Moves over characters that satisfy `p`, which holds of no break. -/
def skipWhile (c : Cursor) (p : Char → Bool) : Cursor := (c.takeWhile p).2

/-- The line break ahead as a scalar reads it, and the start of the next line. -/
def readBreak (c : Cursor) : List Char × Cursor :=
  let next (s rest : List Char) (bytes : Nat) : List Char × Cursor :=
    (s, { c with ahead := rest, offset := c.offset + bytes, line := c.line + 1, column := 0 })
  match c.ahead with
  | '\r' :: '\n' :: rest => next ['\n'] rest 2
  | x :: rest =>
    if x == '\n' || x == '\r' || x == '\u0085' then next ['\n'] rest x.utf8Size
    else if isBreak x then next [x] rest x.utf8Size
    else ([], c)
  | [] => ([], c)

/-- Moves over the line break ahead. -/
def skipBreak (c : Cursor) : Cursor := c.readBreak.2

/-- Moves to the end of the line. -/
def skipLine (c : Cursor) : Cursor := c.skipWhile fun x => !isBreak x

/-- Whether the line starts with a mark that begins or ends a document. -/
def atDocumentMark (c : Cursor) : Bool :=
  c.column == 0 && (c.startsWith ['-', '-', '-'] || c.startsWith ['.', '.', '.']) && c.isBlankAt 3

end Cursor

end Views.Yaml
