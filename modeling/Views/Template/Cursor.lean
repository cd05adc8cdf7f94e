import Views.Template.Tree

/-!
# Reading a template text

A reader moves a cursor through a text. The cursor keeps what lies behind it as well as what lies
ahead, because a tag looks both ways to find out whether it has its line to itself. Alternatives are
ordered: the first that matches wins, and a reader that fails leaves the cursor where it was.
-/

set_option autoImplicit false

namespace Views.Template

/-- A place between two characters of a text. -/
structure Cursor where
  /-- The text behind, nearest character first. -/
  behind : List Char
  /-- The text ahead. -/
  ahead : List Char
  /-- The number of characters behind. -/
  offset : Nat
  /-- The number of characters of the whole text, which bounds every loop. -/
  size : Nat
  position : Position
  /-- The first literal behind that denotes no value. -/
  misread : Option String

namespace Cursor

/-- The start of a text. -/
def start (text : List Char) : Cursor := ⟨[], text, 0, text.length, ⟨1, 1⟩, none⟩

/-- The text between two cursors, the second further on than the first. -/
def upTo (c d : Cursor) : List Char := c.ahead.take (d.offset - c.offset)

/-- The place behind the next character, with the text ahead of it. -/
def advance (c : Cursor) (x : Char) (rest : List Char) : Cursor :=
  { c with
    behind := x :: c.behind
    ahead := rest
    offset := c.offset + 1
    position :=
      if x = '\n' then ⟨c.position.line + 1, 1⟩
      else { c.position with column := c.position.column + 1 } }

end Cursor

/-- A reader of part of a text. -/
abbrev Reader := StateT Cursor Option

namespace Reader

variable {α : Type}

/-- Reads one character that satisfies `p`. -/
def charIf (p : Char → Bool) : Reader Char := fun c =>
  match c.ahead with
  | [] => none
  | x :: rest => if p x then some (x, c.advance x rest) else none

/-- Reads the given characters. -/
def word : List Char → Reader Unit
  | [] => pure ()
  | x :: rest => do let _ ← charIf (· == x); word rest

/-- Reads up to `n` characters while they satisfy `p`. -/
def takeUpTo (p : Char → Bool) : Nat → Reader (List Char)
  | 0 => pure []
  | n + 1 => fun c =>
    match charIf p c with
    | some (x, d) => (takeUpTo p n d).map fun (xs, e) => (x :: xs, e)
    | none => some ([], c)

/-- Reads characters while they satisfy `p`. -/
def takeWhile (p : Char → Bool) : Reader (List Char) := fun c => takeUpTo p c.size c

/-- Reads at least one character while they satisfy `p`. -/
def takeWhile1 (p : Char → Bool) : Reader (List Char) := do
  let xs ← takeWhile p
  if xs.isEmpty then failure else pure xs

/-- Skips the blanks allowed between the parts of a tag. -/
def skip : Reader Unit := do
  let _ ← takeWhile fun x => x == ' ' || x == '\t' || x == '\n' || x == '\r'

/-- Succeeds, without moving, where `r` would read something. -/
def isHere (r : Reader α) : Reader Unit := fun c => (r c).map fun _ => ((), c)

/-- Succeeds, without moving, where `r` would fail. -/
def isNotHere (r : Reader α) : Reader Unit := fun c => if (r c).isSome then none else some ((), c)

/-- Reads with `r` if it succeeds, and says whether it did. -/
def possibly (r : Reader α) : Reader (Option α) := (some <$> r) <|> pure none

/-- Repeats `r` while it succeeds, at most `n` times, with blanks between. -/
def repeatUpTo (r : Reader α) : Nat → Reader (List α)
  | 0 => pure []
  | n + 1 => fun c =>
    match (skip *> r) c with
    | some (x, d) => (repeatUpTo r n d).map fun (xs, e) => (x :: xs, e)
    | none => some ([], c)

/-- Reads with `r` and gives the text read. -/
def textOf (r : Reader α) : Reader String := fun c =>
  (r c).map fun (_, d) => (String.ofList (c.upTo d), d)

/-- The cursor. -/
def here : Reader Cursor := fun c => some (c, c)

end Reader

end Views.Template
