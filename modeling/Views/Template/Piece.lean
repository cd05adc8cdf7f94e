import Views.Template.Expression

/-!
# Pieces of a template text

A template text is a sequence of texts and tags. `pieces?` splits it, and refuses a text whose tags
are malformed or not nested: every block that opens is closed, and `else` stands only in the block
of a helper, a plain one after all conditional ones. Whether a closing tag has the right name is not
decided here. A piece keeps the cursors before and behind it; blanks between two pieces belong to
neither.
-/

set_option autoImplicit false

namespace Views.Template

open Reader

/-- The kinds of pieces. -/
inductive Tag where
  /-- Text outside of tags, without the backslashes that escape a tag. -/
  | text (s : List Char)
  | comment
  | mustache (content : Sum Call Param) (escaped : Bool)
  | blockStart (c : Call)
  | elseIf (c : Call)
  | otherwise
  | rawStart (c : Call)
  | rawText (s : List Char)
  | decorator (c : Call)
  | decoratorStart (c : Call)
  | inclusion (c : PartialCall)
  | inclusionStart (c : PartialCall)
  /-- The end of the innermost open block. -/
  | close (name : String)

/-- A piece: its kind, whether it trims the blanks around it, and its place. -/
structure Piece where
  tag : Tag
  trimBefore : Bool
  trimAfter : Bool
  start : Cursor
  stop : Cursor

/-- The kinds of open blocks. -/
inductive Frame where
  /-- A helper's block, and whether its plain `else` has been read. -/
  | helper (ended : Bool)
  | partialBlock
  | decorator

/-! ## Text -/

/-- A backslash in front of a tag, or several of them; one of them is dropped. -/
def escape : Reader (List Char) :=
  (do
    word ['\\', '{', '{']
    let more ← possibly (word ['{', '{'])
    pure (if more.isSome then ['{', '{', '{', '{'] else ['{', '{'])) <|>
  (do
    let slashes ← takeWhile1 (· == '\\')
    if slashes.length < 2 then failure
    isHere (word ['{', '{'])
    pure slashes.tail)

/-- Text up to the given opening, at most `n` steps of it. -/
def textUpTo (opening : List Char) : Nat → Reader (List Char)
  | 0 => pure []
  | n + 1 => fun c =>
    let step := escape <|> (do isNotHere (word opening); List.singleton <$> charIf fun _ => true)
    match step c with
    | some (xs, d) => (textUpTo opening n d).map fun (ys, e) => (xs ++ ys, e)
    | none => some ([], c)

/-- Text outside of tags. -/
def plainText : Reader (List Char) := fun c =>
  match textUpTo ['{', '{'] c.size c with
  | some (s, d) => if c.offset < d.offset then some (s, d) else none
  | none => none

/-- Text in a raw block. -/
def rawText : Reader (List Char) := fun c => textUpTo ['{', '{', '{', '{'] c.size c

/-! ## Tags -/

/-- The mark that trims blanks. -/
def tilde : Reader Bool := Option.isSome <$> possibly (word ['~'])

/-- A tag: an opening, the content, and a closing, each side with an optional trimming mark. -/
def tagOf (opening : List Char) (content : Reader Tag) (closing : List Char) :
    Reader (Tag × Bool × Bool) := do
  word opening
  skip
  let before ← tilde
  skip
  let tag ← content
  skip
  let after ← tilde
  skip
  word closing
  pure (tag, before, after)

/-- A tag between double braces. -/
def braces (content : Reader Tag) : Reader (Tag × Bool × Bool) :=
  tagOf ['{', '{'] content ['}', '}']

/-- Content behind a mark. -/
def marked (mark : List Char) (content : Reader Tag) : Reader Tag := do
  for x in mark do
    skip
    word [x]
  skip
  content

/-- The plain alternative of a block. -/
def otherwiseTag : Reader (Tag × Bool × Bool) :=
  braces (do word ['e', 'l', 's', 'e'] <|> word ['^']; pure .otherwise)

/-- A conditional alternative of a block. -/
def elseIfTag : Reader (Tag × Bool × Bool) :=
  braces (do word ['e', 'l', 's', 'e'] <|> word ['^']; skip; Tag.elseIf <$> blockCall)

/-- A tag that writes an escaped value. -/
def escapedTag : Reader (Tag × Bool × Bool) := do
  isNotHere (otherwiseTag <|> elseIfTag)
  braces ((Tag.mustache · true) <$> mustache)

/-- A tag that writes a value as it is. -/
def verbatimTag : Reader (Tag × Bool × Bool) :=
  tagOf ['{', '{', '{'] ((Tag.mustache · false) <$> mustache) ['}', '}', '}'] <|>
  braces (do
    word ['{']
    skip
    let content ← mustache
    skip
    word ['}']
    pure (.mustache content false)) <|>
  braces (marked ['&'] ((Tag.mustache · false) <$> Sum.inr <$> alone))

/-- The start of a raw block; its content is text. -/
def rawStartTag : Reader (Tag × Bool × Bool) :=
  tagOf ['{', '{', '{', '{'] (Tag.rawStart <$> blockCall) ['}', '}', '}', '}']

/-- The name in a closing tag. -/
def closingName (name : Reader String) : Reader Tag :=
  marked ['/'] (do
    let n ← possibly name
    pure (.close (n.getD "")))

/-- The end of a raw block. -/
def rawCloseTag : Reader (Tag × Bool × Bool) :=
  tagOf ['{', '{', '{', '{'] (closingName identifier) ['}', '}', '}', '}']

/-- Skips characters up to the given closing. -/
def throughClosing (closing : List Char) : Nat → Reader Unit
  | 0 => failure
  | n + 1 => word closing <|> (do let _ ← charIf fun _ => true; throughClosing closing n)

/-- A comment, up to the first closing of its kind. -/
def comment : Reader (Tag × Bool × Bool) := do
  word ['{', '{', '!']
  let size := (← here).size + 1
  (do skip; word ['-', '-']; throughClosing ['-', '-', '}', '}'] size) <|>
    throughClosing ['}', '}'] size
  pure (.comment, false, false)

/-- The pieces that can stand in any block, a raw block apart. -/
def item : Reader (Tag × Bool × Bool) :=
  ((fun s => (.text s, false, false)) <$> plainText) <|>
  escapedTag <|>
  verbatimTag <|>
  braces (marked ['#'] (Tag.blockStart <$> blockCall)) <|>
  comment <|>
  braces (marked ['*'] (Tag.decorator <$> blockCall)) <|>
  braces (marked ['#', '*'] (Tag.decoratorStart <$> blockCall)) <|>
  braces (marked ['>'] (Tag.inclusion <$> partialCall)) <|>
  braces (marked ['#', '>'] (Tag.inclusionStart <$> partialCall))

/-- The pieces that can stand only in the innermost open block. -/
def itemOf (frame : Frame) : Reader (Tag × Bool × Bool) :=
  match frame with
  | .helper false => elseIfTag <|> otherwiseTag <|> braces (closingName identifier)
  | .helper true => braces (closingName identifier)
  | .partialBlock => braces (closingName partialIdentifier)
  | .decorator => braces (closingName identifier)

/-! ## Sequences -/

/-- Reads one piece. -/
def pieceOf (r : Reader (Tag × Bool × Bool)) : Reader Piece := fun c =>
  (r c).map fun ((tag, before, after), d) => (⟨tag, before, after, c, d⟩, d)

/-- A raw block: its start, its text and its end. -/
def rawBlock : Reader (List Piece) := do
  let start ← pieceOf rawStartTag
  skip
  let text ← pieceOf ((fun s => (.rawText s, false, false)) <$> rawText)
  skip
  let close ← pieceOf rawCloseTag
  pure [start, text, close]

/-- Forgets what was noted about the pieces before. -/
def forget : Reader Unit := fun c => some ((), { c with misread := none })

/-- The blocks that are open behind a piece. -/
def Frame.behind (frames : List Frame) (tag : Tag) : List Frame :=
  match tag, frames with
  | .blockStart _, _ => .helper false :: frames
  | .rawStart _, _ => .helper true :: frames
  | .decoratorStart _, _ => .decorator :: frames
  | .inclusionStart _, _ => .partialBlock :: frames
  | .otherwise, .helper _ :: outer => .helper true :: outer
  | .close _, _ :: outer => outer
  | _, _ => frames

/-- The next piece, or the pieces of a raw block. -/
def nextPieces (frames : List Frame) : Reader (List Piece) := do
  skip
  forget
  (List.singleton <$> pieceOf item) <|> rawBlock <|>
    (match frames with
    | [] => failure
    | frame :: _ => List.singleton <$> pieceOf (itemOf frame))

/-- Reads pieces up to the end of the text, at most `n` steps; no block may be left open there. -/
def piecesFrom (frames : List Frame) : Nat → Cursor → Option (List Piece × Cursor)
  | 0, _ => none
  | n + 1, c =>
    match nextPieces frames c with
    | some (ps, d) =>
      let frames := ps.foldl (fun fs p => Frame.behind fs p.tag) frames
      (piecesFrom frames n d).map fun (rest, e) => (ps ++ rest, e)
    | none =>
      match skip c with
      | some (_, d) => if d.ahead.isEmpty && frames.isEmpty then some ([], d) else none
      | none => none

/-- The pieces of a text, and the cursor at its end. -/
def pieces? (source : String) : Option (List Piece × Cursor) :=
  let start := Cursor.start source.toList
  piecesFrom [] (start.size + 1) start

end Views.Template
