import Views.Yaml.Scalar

/-!
# Tokens of a YAML text

`tokens?` splits a text into tokens. Outside of brackets the indentation of lines opens and closes
collections, which is made visible by tokens of its own. Whether a scalar, or a collection in
brackets, is a key is known only at the colon behind it; until then it is remembered as a possible
key, and the colon puts the tokens of the key in front of it. A possible key ends with its line, or
1024 bytes further on. A byte order mark may start a line, where it takes a column.
-/

set_option autoImplicit false

namespace Views.Yaml

/-- The tokens. -/
inductive Token where
  | versionDirective (major minor : Nat)
  | tagDirective (handle lead : String)
  | documentStart
  | documentEnd
  | blockSequenceStart
  | blockMappingStart
  | blockEnd
  | flowSequenceStart
  | flowSequenceEnd
  | flowMappingStart
  | flowMappingEnd
  | blockEntry
  | flowEntry
  | key
  | value
  | alias (name : String)
  | anchor (name : String)
  | tag (handle suffix : String)
  | scalar (text : String) (style : Style)
  | streamEnd
  deriving DecidableEq

/-- A place where a key may have started: its cursor, the number of tokens before it, and whether a
key has to stand there. -/
structure KeyPlace where
  start : Cursor
  number : Nat
  required : Bool

/-- The state of a scanner. -/
structure Scan where
  cursor : Cursor
  tokens : Array Token
  /-- The column of the innermost block, and those of the blocks around it. -/
  indent : Int
  outer : List Int
  /-- Whether a key may start here. -/
  keyAllowed : Bool
  /-- The possible key of the innermost brackets, and those of the brackets around them. -/
  possible : Option KeyPlace
  around : List (Option KeyPlace)

namespace Scan

/-- The start of a text. -/
def start (text : List Char) : Scan := ⟨Cursor.start text, #[], -1, [], true, none, []⟩

/-- Whether the scanner is inside of brackets. -/
def inFlow (s : Scan) : Bool := !s.around.isEmpty

/-- Adds a token. -/
def emit (s : Scan) (t : Token) : Scan := { s with tokens := s.tokens.push t }

/-- Puts a token in front of others. -/
def emitAt (s : Scan) (number : Nat) (t : Token) : Scan :=
  { s with tokens := s.tokens.insertIdxIfInBounds number t }

/-- Moves the cursor. -/
def moveTo (s : Scan) (c : Cursor) : Scan := { s with cursor := c }

/-! ## Possible keys -/

/-- Forgets the innermost possible key; a key that had to be there is missed. -/
def dropKey (s : Scan) : Option Scan :=
  match s.possible with
  | some k => if k.required then none else some { s with possible := none }
  | none => some s

/-- Remembers that a key may start here. -/
def saveKey (s : Scan) : Option Scan :=
  if s.keyAllowed then
    s.dropKey.map fun s =>
      { s with
        possible := some
          ⟨s.cursor, s.tokens.size, !s.inFlow && s.indent == (s.cursor.column : Int)⟩ }
  else some s

/-- Whether a possible key cannot reach as far as the cursor. -/
def isStale (s : Scan) (k : KeyPlace) : Bool :=
  k.start.line < s.cursor.line || k.start.offset + 1024 < s.cursor.offset

/-- Forgets a possible key that cannot reach as far as the cursor. -/
def refresh (s : Scan) : Option KeyPlace → Option (Option KeyPlace)
  | some k => if s.isStale k then (if k.required then none else some none) else some (some k)
  | none => some none

/-- Forgets all possible keys that cannot reach as far as the cursor. -/
def dropStale (s : Scan) : Option Scan := do
  let possible ← s.refresh s.possible
  let around ← s.around.mapM s.refresh
  pure { s with possible, around }

/-! ## Indentation -/

/-- Closes the blocks that are indented further than a column. -/
def closeBlocks (s : Scan) (column : Int) : List Int → Scan
  | [] => s
  | o :: rest =>
    if column < s.indent then
      closeBlocks { s.emit .blockEnd with indent := o, outer := rest } column rest
    else s

/-- Closes the blocks that are indented further than a column, outside of brackets. -/
def unroll (s : Scan) (column : Int) : Scan :=
  if s.inFlow then s else s.closeBlocks column s.outer

/-- Opens a block at a column further right, outside of brackets. -/
def roll (s : Scan) (column : Nat) (number : Option Nat) (t : Token) : Scan :=
  if !s.inFlow && s.indent < column then
    let s := match number with
      | some n => s.emitAt n t
      | none => s.emit t
    { s with indent := column, outer := s.indent :: s.outer }
  else s

/-! ## Blanks between tokens -/

/-- Moves to the next token. -/
def toNextToken : Nat → Scan → Scan
  | 0, s => s
  | n + 1, s =>
    let c := s.cursor
    let c := if c.column == 0 && c.nextIs (· == '\ufeff') then c.skip else c
    let c := c.skipWhile fun x => x == ' ' || ((s.inFlow || !s.keyAllowed) && x == '\t')
    let c := if c.nextIs (· == '#') then c.skipLine else c
    if c.nextIs isBreak then
      toNextToken n { s with cursor := c.skipBreak, keyAllowed := !s.inFlow || s.keyAllowed }
    else s.moveTo c

/-! ## Directives and tags -/

/-- The places of `%` and of characters that need no escape in a tag. -/
def isTagChar (verbatim : Bool) (c : Char) : Bool :=
  isNameChar c || ";/?:@&=+$.!~*()%".contains c || c == '\x27' ||
    (verbatim && (c == ',' || c == '[' || c == ']'))

/-- The number of bytes of a character, from the first of them. -/
def widthOf (b : Nat) : Nat :=
  if b < 0x80 then 1
  else if 0xc0 ≤ b && b < 0xe0 then 2
  else if 0xe0 ≤ b && b < 0xf0 then 3
  else if 0xf0 ≤ b && b < 0xf8 then 4
  else 0

/-- Reads escaped bytes, each a percent sign and two hexadecimal digits. -/
def escapedBytes : Nat → List Char → Option (List Nat × List Char)
  | 0, s => some ([], s)
  | n + 1, s =>
    match s with
    | '%' :: a :: b :: rest => do
      let a ← Json.hexValue? a
      let b ← Json.hexValue? b
      let (bytes, after) ← escapedBytes n rest
      pure ((16 * a + b) :: bytes, after)
    | _ => none

/-- Reads a character of a tag that is escaped byte by byte. -/
def escapedChar (s : List Char) : Option (Char × Nat) := do
  let (bytes, _) ← escapedBytes 1 s
  let width := widthOf (bytes.headD 0)
  if width = 0 then none
  let (bytes, _) ← escapedBytes width s
  let text ← String.fromUTF8? (ByteArray.mk (bytes.map Nat.toUInt8).toArray)
  match text.toList with
  | [c] => some (c, 3 * width)
  | _ => none

/-- Reads the characters of a tag. -/
def tagText (verbatim : Bool) : Nat → Cursor → Option (List Char × Cursor)
  | 0, _ => none
  | n + 1, c =>
    match c.peek? with
    | none => some ([], c)
    | some x =>
      if x == '%' then
        match escapedChar c.ahead with
        | none => none
        | some (y, k) => (tagText verbatim n (c.skipMany k)).map fun (s, d) => (y :: s, d)
      else if isTagChar verbatim x then
        (tagText verbatim n c.skip).map fun (s, d) => (x :: s, d)
      else some ([], c)

/-- Reads a tag handle: an exclamation mark, and perhaps a name that ends in another one. -/
def tagHandle (c : Cursor) : Option (List Char × Cursor) :=
  if c.nextIs (· == '!') then
    let (name, d) := c.skip.takeWhile isNameChar
    if d.nextIs (· == '!') then some ('!' :: name ++ ['!'], d.skip) else some ('!' :: name, d)
  else none

/-- Reads a tag. -/
def tagAt (s : Scan) : Option (Token × Cursor) := do
  let c := s.cursor
  let (token, d) ← (do
    if c.startsWith ['!', '<'] then
      let (text, d) ← tagText true (c.size + 1) (c.skipMany 2)
      if text.isEmpty || !d.nextIs (· == '>') then none
      else pure (Token.tag "" (String.ofList text), d.skip)
    else
      let (handle, d) ← tagHandle c
      if 1 < handle.length && handle.getLast? == some '!' then
        let (text, e) ← tagText false (d.size + 1) d
        if text.isEmpty then none
        else pure (Token.tag (String.ofList handle) (String.ofList text), e)
      else
        let (text, e) ← tagText false (d.size + 1) d
        let suffix := handle.tail ++ text
        if suffix.isEmpty then pure (Token.tag "" "!", e)
        else pure (Token.tag "!" (String.ofList suffix), e))
  if (s.inFlow && d.nextIs (· == ',')) || d.isBlankAt 0 then pure (token, d) else none

/-- Reads a number of a version. -/
def versionNumber (c : Cursor) : Option (Nat × Cursor) :=
  let (ds, d) := c.takeWhile Char.isDigit
  if ds.isEmpty || 9 < ds.length then none
  else some (ds.foldl (fun n x => 10 * n + (x.toNat - 48)) 0, d)

/-- Reads a directive, up to the end of its line. -/
def directiveAt (c : Cursor) : Option (Token × Cursor) := do
  let (name, d) := c.skip.takeWhile isNameChar
  if name.isEmpty || !d.isBlankAt 0 then none
  let d := d.skipWhile isBlank
  let (token, e) ← (do
    match String.ofList name with
    | "YAML" =>
      let (major, d) ← versionNumber d
      if !d.nextIs (· == '.') then none
      let (minor, d) ← versionNumber d.skip
      pure (Token.versionDirective major minor, d)
    | "TAG" =>
      let (handle, e) ← tagHandle d
      if handle.length ≠ 1 ∧ handle.getLast? ≠ some '!' then none
      if !e.nextIs isBlank then none
      let e := e.skipWhile isBlank
      let (lead, f) ← tagText true (e.size + 1) e
      if lead.isEmpty || !f.isBlankAt 0 then none
      pure (Token.tagDirective (String.ofList handle) (String.ofList lead), f)
    | _ => none)
  let e := e.skipWhile isBlank
  let e := if e.nextIs (· == '#') then e.skipLine else e
  if e.isBlankAt 0 then pure (token, e.skipBreak) else none

/-- Reads the name of an anchor or an alias. -/
def nameAt (c : Cursor) : Option (String × Cursor) :=
  let (name, d) := c.skip.takeWhile isNameChar
  let ends := d.isBlankAt 0 || d.nextIs fun x => "?:,]\x7d%@`".contains x
  if name.isEmpty || !ends then none else some (String.ofList name, d)

/-! ## Tokens -/

/-- Ends the blocks and the possible key before a token that stands outside of all of them. -/
def leaveAll (s : Scan) : Option Scan :=
  (s.unroll (-1)).dropKey.map fun s => { s with keyAllowed := false }

/-- Reads a mark that opens brackets. -/
def openFlow (s : Scan) (t : Token) : Option Scan := do
  let s ← s.saveKey
  pure { (s.emit t).moveTo s.cursor.skip with
    keyAllowed := true, possible := none, around := s.possible :: s.around }

/-- Reads a mark that closes brackets. -/
def closeFlow (s : Scan) (t : Token) : Option Scan := do
  let s ← s.dropKey
  let s := match s.around with
    | k :: rest => { s with possible := k, around := rest }
    | [] => s
  pure { (s.emit t).moveTo s.cursor.skip with keyAllowed := false }

/-- Reads the mark of an entry of a sequence on lines of its own. -/
def blockEntryAt (s : Scan) : Option Scan := do
  if !s.inFlow && !s.keyAllowed then none
  let s := s.roll s.cursor.column none .blockSequenceStart
  let s ← s.dropKey
  pure { (s.emit .blockEntry).moveTo s.cursor.skip with keyAllowed := true }

/-- Reads the mark of a key. -/
def keyAt (s : Scan) : Option Scan := do
  if !s.inFlow && !s.keyAllowed then none
  let s := s.roll s.cursor.column none .blockMappingStart
  let s ← s.dropKey
  pure { (s.emit .key).moveTo s.cursor.skip with keyAllowed := !s.inFlow }

/-- Reads the mark of a value; a possible key becomes a key. -/
def valueAt (s : Scan) : Option Scan :=
  match s.possible with
  | some k =>
    let s := s.emitAt k.number .key
    let s := s.roll k.start.column (some k.number) .blockMappingStart
    some { (s.emit .value).moveTo s.cursor.skip with possible := none, keyAllowed := false }
  | none =>
    if !s.inFlow && !s.keyAllowed then none
    else
      let s := s.roll s.cursor.column none .blockMappingStart
      some { (s.emit .value).moveTo s.cursor.skip with keyAllowed := !s.inFlow }

/-- Reads a token that may be a key. -/
def keyLike (s : Scan) (token : Option (Token × Cursor)) : Option Scan := do
  let s ← s.saveKey
  let (t, c) ← token
  pure { (s.emit t).moveTo c with keyAllowed := false }

/-- Reads a scalar in a block of lines. -/
def blockAt (s : Scan) (folded : Bool) : Option Scan := do
  let s ← s.dropKey
  let (text, c) ← blockScalar folded s.indent s.cursor
  let t := Token.scalar (String.ofList text) (if folded then .folded else .literal)
  pure { (s.emit t).moveTo c with keyAllowed := true }

/-- Reads a plain scalar; the end of its last line lets a key start. -/
def plainAt (s : Scan) : Option Scan := do
  let s ← s.saveKey
  let (text, broken, c) ← plainScalar s.inFlow (s.indent + 1).toNat s.cursor
  pure { (s.emit (.scalar (String.ofList text) .plain)).moveTo c with keyAllowed := broken }

/-- Whether a plain scalar can start here. -/
def plainStarts (s : Scan) (x : Char) : Bool :=
  let c := s.cursor
  !(isBlank x || isBreak x || "-?:,[]\x7b\x7d#&*!|>'\"%@`".contains x) ||
    (x == '-' && !(c.ahead[1]?).any isBlank) ||
    (!s.inFlow && (x == '?' || x == ':') && !c.isBlankAt 1)

/-- Reads the next token, which starts with the character `x`. -/
def tokenAt (s : Scan) (x : Char) : Option Scan :=
  let c := s.cursor
  if c.column == 0 && x == '%' then do
    let s ← s.leaveAll
    let (t, d) ← directiveAt c
    pure ((s.emit t).moveTo d)
  else if c.atDocumentMark then do
    let s ← s.leaveAll
    pure ((s.emit (if x == '-' then .documentStart else .documentEnd)).moveTo (c.skipMany 3))
  else if x == '[' then s.openFlow .flowSequenceStart
  else if x == '{' then s.openFlow .flowMappingStart
  else if x == ']' then s.closeFlow .flowSequenceEnd
  else if x == '}' then s.closeFlow .flowMappingEnd
  else if x == ',' then do
    let s ← s.dropKey
    pure { (s.emit .flowEntry).moveTo c.skip with keyAllowed := true }
  else if x == '-' && c.isBlankAt 1 then s.blockEntryAt
  else if x == '?' && (s.inFlow || c.isBlankAt 1) then s.keyAt
  else if x == ':' && (s.inFlow || c.isBlankAt 1) then s.valueAt
  else if x == '*' then s.keyLike ((nameAt c).map fun (name, d) => (.alias name, d))
  else if x == '&' then s.keyLike ((nameAt c).map fun (name, d) => (.anchor name, d))
  else if x == '!' then s.keyLike (tagAt s)
  else if x == '|' && !s.inFlow then s.blockAt false
  else if x == '>' && !s.inFlow then s.blockAt true
  else if x == '\x27' || x == '\x22' then
    s.keyLike ((quotedScalar (x == '\x27') c).map fun (text, d) =>
      (.scalar (String.ofList text) .quoted, d))
  else if s.plainStarts x then s.plainAt
  else none

/-- Reads tokens up to the end of the text. -/
def tokensFrom : Nat → Scan → Option (Array Token)
  | 0, _ => none
  | n + 1, s => do
    let s := toNextToken (s.cursor.size + 1) s
    let s ← s.dropStale
    let s := s.unroll s.cursor.column
    match s.cursor.peek? with
    | none =>
      let s ← s.leaveAll
      pure (s.emit .streamEnd).tokens
    | some x => tokensFrom n (← s.tokenAt x)

end Scan

/-- The tokens of a text. -/
def tokens? (text : String) : Option (List Token) :=
  let s := text.toList
  if s.all isAllowed then (Scan.tokensFrom (s.length + 2) (Scan.start s)).map Array.toList
  else none

end Views.Yaml
