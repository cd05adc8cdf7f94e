import Views.Json.Text
import Views.Yaml.Cursor

/-!
# Scalars

A scalar is written plainly, between quotes, or as a block of lines. Each reader starts at the
scalar and gives its text and the place behind it. Within plain and quoted scalars a single line
break reads as a space and further ones as themselves; a block keeps its breaks, or folds them in
the same way between lines that do not start with a blank.
-/

set_option autoImplicit false

namespace Views.Yaml

/-- How a scalar is written. -/
inductive Style where
  | plain
  | quoted
  | literal
  | folded
  deriving DecidableEq

/-! ## Blanks inside of scalars -/

/-- Blanks and line breaks between two parts of a scalar. -/
structure Gap where
  spaces : List Char := []
  /-- Whether a line has ended. -/
  broken : Bool := false
  first : List Char := []
  more : List Char := []

/-- What a gap reads as. -/
def Gap.text (g : Gap) : List Char :=
  if g.broken then
    if g.first = ['\n'] then (if g.more = [] then [' '] else g.more) else g.first ++ g.more
  else g.spaces

/-- Reads blanks and line breaks. Behind a break, a tab left of the column `indent` is refused. -/
def gapFrom (indent : Nat) : Nat → Gap → Cursor → Option (Gap × Cursor)
  | 0, _, _ => none
  | n + 1, g, c =>
    match c.peek? with
    | none => some (g, c)
    | some x =>
      if isBlank x then
        if g.broken then
          if x == '\t' && c.column < indent then none else gapFrom indent n g c.skip
        else gapFrom indent n { g with spaces := g.spaces ++ [x] } c.skip
      else if isBreak x then
        let (s, d) := c.readBreak
        if g.broken then gapFrom indent n { g with more := g.more ++ s } d
        else gapFrom indent n { g with spaces := [], first := s, broken := true } d
      else some (g, c)

/-! ## Plain scalars -/

/-- A character that ends a plain scalar between brackets. -/
def isFlowMark (c : Char) : Bool := c == ',' || c == '[' || c == ']' || c == '{' || c == '}'

/-- The characters of a plain scalar up to a blank or its end; none where a colon is misplaced. -/
def plainRun (flow : Bool) : Nat → Cursor → Option (List Char × Cursor)
  | 0, _ => none
  | n + 1, c =>
    match c.ahead with
    | [] => some ([], c)
    | x :: rest =>
      if isBlank x || isBreak x then some ([], c)
      else if flow && x == ':' && rest.head?.any fun y => isFlowMark y || y == '?' then none
      else if x == ':' && c.isBlankAt 1 then some ([], c)
      else if flow && isFlowMark x then some ([], c)
      else (plainRun flow n c.skip).map fun (s, d) => (x :: s, d)

/-- The rest of a plain scalar; says also whether a line has ended behind it. -/
def plainFrom (flow : Bool) (indent : Nat) :
    Nat → Gap → Cursor → Option (List Char × Bool × Cursor)
  | 0, _, _ => none
  | n + 1, g, c =>
    if c.atDocumentMark || c.nextIs (· == '#') then some ([], g.broken, c)
    else
      match plainRun flow (c.size + 1) c with
      | none => none
      | some (run, d) =>
        let lead := if run = [] then [] else g.text
        let broken := g.broken && run = []
        if !d.nextIs (fun x => isBlank x || isBreak x) then some (lead ++ run, broken, d)
        else
          match gapFrom indent (d.size + 1) {} d with
          | none => none
          | some (gap, e) =>
            if !flow && e.column < indent then some (lead ++ run, gap.broken, e)
            else
              (plainFrom flow indent n gap e).map fun (s, broken, f) =>
                (lead ++ run ++ s, broken, f)

/-- Reads a plain scalar; outside of brackets its lines are indented at least to `indent`. -/
def plainScalar (flow : Bool) (indent : Nat) (c : Cursor) : Option (List Char × Bool × Cursor) :=
  plainFrom flow indent (c.size + 1) {} c

/-! ## Quoted scalars -/

/-- The number of hexadecimal digits after the letter of an escape. -/
def escapeDigits? (c : Char) : Option Nat :=
  if c = 'x' then some 2 else if c = 'u' then some 4 else if c = 'U' then some 8 else none

/-- The character that a letter stands for behind a backslash. -/
def escapeChar? (c : Char) : Option Char :=
  match c with
  | '0' => some '\x00'
  | 'a' => some '\x07'
  | 'b' => some '\x08'
  | 't' => some '\t'
  | '\t' => some '\t'
  | 'n' => some '\n'
  | 'v' => some '\x0b'
  | 'f' => some '\x0c'
  | 'r' => some '\r'
  | 'e' => some '\x1b'
  | ' ' => some ' '
  | '\x22' => some '\x22'
  | '/' => some '/'
  | '\\' => some '\\'
  | 'N' => some '\u0085'
  | '_' => some '\u00a0'
  | 'L' => some '\u2028'
  | 'P' => some '\u2029'
  | _ => none

/-- The character of a code point in hexadecimal digits. -/
def charOfHex? (ds : List Char) : Option Char := do
  let digits ← ds.mapM Json.hexValue?
  let n := digits.foldl (fun n d => 16 * n + d) 0
  if (0xd800 ≤ n ∧ n ≤ 0xdfff) ∨ 0x10ffff < n then none else some (Char.ofNat n)

/-- Reads an escape behind its backslash. -/
def escapeAt (c : Cursor) : Option (Char × Cursor) :=
  match c.peek? with
  | none => none
  | some x =>
    match escapeDigits? x with
    | some n =>
      let ds := (c.ahead.tail).take n
      if ds.length < n then none else (charOfHex? ds).map fun y => (y, c.skipMany (n + 1))
    | none => (escapeChar? x).map fun y => (y, c.skip)

/-- The characters of a quoted scalar up to a blank or its closing quote; says also whether they end
in an escaped line break. -/
def quotedRun (single : Bool) : Nat → Cursor → Option (List Char × Bool × Cursor)
  | 0, _ => none
  | n + 1, c =>
    let quote := if single then '\x27' else '\x22'
    match c.ahead with
    | [] => some ([], false, c)
    | x :: rest =>
      if isBlank x || isBreak x then some ([], false, c)
      else if single && x == '\x27' && rest.head? == some '\x27' then
        (quotedRun single n (c.skipMany 2)).map fun (s, b, d) => ('\x27' :: s, b, d)
      else if x == quote then some ([], false, c)
      else if !single && x == '\\' then
        if rest.head?.any isBreak then some ([], true, c.skip.skipBreak)
        else
          match escapeAt c.skip with
          | none => none
          | some (y, d) => (quotedRun single n d).map fun (s, b, e) => (y :: s, b, e)
      else (quotedRun single n c.skip).map fun (s, b, d) => (x :: s, b, d)

/-- The rest of a quoted scalar behind its opening quote. -/
def quotedFrom (single : Bool) : Nat → Cursor → Option (List Char × Cursor)
  | 0, _ => none
  | n + 1, c =>
    let quote := if single then '\x27' else '\x22'
    if c.atDocumentMark || c.ahead.isEmpty then none
    else
      match quotedRun single (c.size + 1) c with
      | none => none
      | some (run, escaped, d) =>
        if d.nextIs (· == quote) then some (run, d.skip)
        else
          match gapFrom 0 (d.size + 1) { broken := escaped } d with
          | none => none
          | some (gap, e) => (quotedFrom single n e).map fun (s, f) => (run ++ gap.text ++ s, f)

/-- Reads a quoted scalar. -/
def quotedScalar (single : Bool) (c : Cursor) : Option (List Char × Cursor) :=
  quotedFrom single (c.size + 1) c.skip

/-! ## Block scalars -/

/-- What is kept of the line breaks at the end of a block. -/
inductive Chomping where
  | strip
  | clip
  | keep
  deriving DecidableEq

/-- The chomping that a mark asks for. -/
def chompingOf? (c : Char) : Option Chomping :=
  if c = '+' then some .keep else if c = '-' then some .strip else none

/-- Reads the header of a block: its chomping and its indentation, in either order. -/
def blockHeader (c : Cursor) : Option (Chomping × Option Nat × Cursor) :=
  let digit (c : Cursor) : Option (Option Nat × Cursor) :=
    match c.peek? with
    | some x =>
      if x.isDigit then (if x = '0' then none else some (some (x.toNat - 48), c.skip))
      else some (none, c)
    | none => some (none, c)
  match c.peek?.bind chompingOf? with
  | some chomping => (digit c.skip).map fun (n, d) => (chomping, n, d)
  | none =>
    match digit c with
    | none => none
    | some (none, d) => some (.clip, none, d)
    | some (some n, d) =>
      match d.peek?.bind chompingOf? with
      | some chomping => some (chomping, some n, d.skip)
      | none => some (.clip, some n, d)

/-- Reads empty lines and the indentation of the line behind them; gives the breaks, the greatest
column reached and the place. An indentation of zero is not known yet. -/
def blockBreaks (indent : Nat) : Nat → Nat → Cursor → Option (List Char × Nat × Cursor)
  | 0, _, _ => none
  | n + 1, widest, c =>
    let spaces := (c.ahead.takeWhile (· == ' ')).length
    let d := c.skipMany (if indent = 0 then spaces else min spaces (indent - c.column))
    let widest := max widest d.column
    if (indent = 0 || d.column < indent) && d.nextIs (· == '\t') then none
    else if d.nextIs isBreak then
      let (s, e) := d.readBreak
      (blockBreaks indent n widest e).map fun (more, widest, f) => (s ++ more, widest, f)
    else some ([], widest, d)

/-- Reads the lines of a block. `first` is the break behind the line before, `more` the breaks of
the empty lines after it, and `blankLed` says whether that line starts with a blank. -/
def blockLines (folded : Bool) (chomping : Chomping) (indent : Nat) :
    Nat → List Char → List Char → Bool → Cursor → Option (List Char × Cursor)
  | 0, _, _, _, _ => none
  | n + 1, first, more, blankLed, c =>
    if c.column == indent && !c.ahead.isEmpty then
      let blank := c.nextIs isBlank
      let lead :=
        if folded && first = ['\n'] && !blankLed && !blank then
          (if more = [] then [' '] else more)
        else first ++ more
      let (line, d) := c.takeWhile fun x => !isBreak x
      let (first, e) := d.readBreak
      match blockBreaks indent (e.size + 1) 0 e with
      | none => none
      | some (more, _, f) =>
        (blockLines folded chomping indent n first more blank f).map fun (s, g) =>
          (lead ++ line ++ s, g)
    else
      some (match chomping with
        | .strip => []
        | .clip => first
        | .keep => first ++ more, c)

/-- Reads a block scalar inside of a block whose column is `parent`, which is -1 at the top. -/
def blockScalar (folded : Bool) (parent : Int) (c : Cursor) : Option (List Char × Cursor) :=
  match blockHeader c.skip with
  | none => none
  | some (chomping, increment, d) =>
    let d := d.skipWhile isBlank
    let d := if d.nextIs (· == '#') then d.skipLine else d
    if !d.isBlankAt 0 then none
    else
      let d := d.skipBreak
      let given := match increment with
        | some n => if 0 ≤ parent then parent.toNat + n else n
        | none => 0
      match blockBreaks given (d.size + 1) 0 d with
      | none => none
      | some (more, widest, e) =>
        let indent := if given = 0 then max (max widest (parent + 1).toNat) 1 else given
        blockLines folded chomping indent (e.size + 1) [] more false e

end Views.Yaml
