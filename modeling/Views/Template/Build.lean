import Views.Template.Error
import Views.Template.Piece
import Views.Text.Blank

/-!
# Building templates

`Template.compile` turns the pieces of a text into a tree and settles the white space:

* a tilde trims all blanks on its side;
* a block tag, `else`, a comment, a decorator or a partial tag that has its line to itself takes the
  blanks of the line and its line break with it. The start of the text counts as the border of a
  line, and so does its end, except in a partial.
-/

set_option autoImplicit false

namespace Views.Template

/-- The elements of a template under construction, the last one first. -/
abbrev Elements := List (Element × Option Position)

/-- One condition of a block with its alternatives: the call and whether its tag starts its line. -/
structure Branch where
  call : Call
  startsLine : Bool

/-- A block under construction. -/
inductive Pending where
  /-- A helper's block: its finished branches, the last one first, and the branch being read, if it
  is not the plain alternative. -/
  | helper (name : String) (place : Position) (done : List (Branch × Template))
      (reading : Option Branch)
  | partialBlock (call : PartialCall) (place : Position)
  | decorator (call : Call) (place : Position)

/-- A partly built template. -/
structure Build where
  /-- Whether blanks are trimmed up to the next tag. -/
  trim : Bool
  /-- Whether the rest of the current line is dropped. -/
  dropLine : Bool
  elements : Elements
  /-- The open blocks, the innermost first, with the elements in front of each. -/
  blocks : List (Pending × Elements)
  /-- The end of the last piece. -/
  stop : Cursor

namespace Build

/-! ## White space -/

/-- A text without one line break at its start. -/
def dropBreak : List Char → List Char
  | '\r' :: '\n' :: rest => rest
  | '\n' :: rest => rest
  | s => s

/-- Whether a text goes on with blanks and a line break. -/
def startsWithEmptyLine (ahead : List Char) : Bool :=
  (ahead.dropWhile Text.isLineBlank).head?.any Text.isLineBreak

/-- Whether a text, given backwards, starts a line with nothing but blanks. -/
def endsWithEmptyLine (behind : List Char) : Bool :=
  match behind.dropWhile Text.isLineBlank with
  | [] => true
  | c :: _ => Text.isLineBreak c

/-- Adds text behind the last element. -/
def pushText (b : Build) (s : List Char) (trim : Bool) : Build :=
  let s :=
    if trim then Text.trimStart Text.isBlank s
    else if b.dropLine then dropBreak (Text.trimStart Text.isLineBlank s)
    else s
  { b with elements := (.text (String.ofList s), none) :: b.elements, dropLine := false }

/-- Changes the last element, if it is a text. -/
def changeLastText (b : Build) (change : List Char → List Char) : Build :=
  match b.elements with
  | (.text s, place) :: rest =>
    { b with elements := (.text (String.ofList (change s.toList)), place) :: rest }
  | _ => b

/-- Adds the blanks in front of a tag, unless they are trimmed. -/
def pushGap (b : Build) (start : Cursor) : Build :=
  let gap := b.stop.upTo start
  if gap.isEmpty || b.trim then b else b.pushText gap false

/-- Settles the trimming marks of a tag. -/
def trimAround (b : Build) (p : Piece) : Build :=
  let b := if p.trimBefore then b.changeLastText (Text.trimEnd Text.isBlank) else b
  { b with trim := p.trimAfter }

/-- Drops the line of a tag that has it to itself; says so by `dropLine`. -/
def standAlone (b : Build) (p : Piece) (isPartial : Bool) : Build :=
  if startsWithEmptyLine p.stop.ahead || (!isPartial && p.stop.ahead.isEmpty) then
    let leading := endsWithEmptyLine p.start.behind
    let b := if leading then b.changeLastText (Text.trimEnd Text.isLineBlank) else b
    { b with dropLine := p.start.behind.isEmpty || leading }
  else { b with dropLine := false }

/-! ## Blocks -/

/-- The finished template of the elements read so far. -/
def finished (elements : Elements) : Template := .mk none elements.reverse

/-- The elements of nested conditions: each branch but the first stands alone in the alternative of
the one before it. -/
def chain (done : List (Branch × Template)) (alternative : Option Template) : Option Element :=
  match done with
  | [] => none
  | [(branch, body)] => some (.block branch.call body alternative branch.startsLine)
  | (branch, body) :: more =>
    chain more (some (.mk none [(.block branch.call body alternative branch.startsLine, none)]))

/-- Opens a block. -/
def openBlock (b : Build) (pending : Pending) : Build :=
  { b with elements := [], blocks := (pending, b.elements) :: b.blocks }

/-- Goes on to the next branch of the innermost block. -/
def nextBranch (b : Build) (next : Option Branch) : Build :=
  match b.blocks with
  | (.helper name place done (some branch), outer) :: rest =>
    { b with
      elements := []
      blocks := (.helper name place ((branch, finished b.elements) :: done) next, outer) :: rest }
  | _ => b

/-- The name that a closing tag has to repeat; a computed name cannot be repeated. -/
def closingName (call : PartialCall) : Option String :=
  match call.name with
  | .fixed name => some name
  | .computed _ => none

/-- Closes the innermost block. The tag that closes a helper's block repeats its name, any other one
repeats the name or leaves it out. -/
def closeBlock (b : Build) (name source : String) (p : Piece) : Except CompileError Build :=
  let mismatch (kind : BlockKind) (opened : String) : Except CompileError Build :=
    throw (.mismatch kind opened name source p.start.position)
  match b.blocks with
  | [] => throw .malformed
  | (pending, outer) :: rest =>
    let add (element : Option Element) (place : Position) : Build :=
      { b with
        elements := (element.map fun e => (e, some place)).toList ++ outer
        blocks := rest }
    match pending with
    | .helper opened place done reading =>
      if opened = name then
        match reading with
        | some branch => pure (add (chain ((branch, finished b.elements) :: done) none) place)
        | none => pure (add (chain done (some (finished b.elements))) place)
      else mismatch .helper opened
    | .partialBlock call place =>
      if name = "" ∨ closingName call = some name then
        pure (add (some (.inclusion call (some (finished b.elements)))) place)
      else mismatch .decorator ((closingName call).getD "")
    | .decorator call place =>
      if name = "" ∨ call.name = name then
        pure (add (some (.decorator call (some (finished b.elements)))) place)
      else mismatch .decorator call.name

/-! ## Pieces -/

/-- Adds an element behind the last one. -/
def push (b : Build) (element : Element) (p : Piece) : Build :=
  { b with elements := (element, some p.start.position) :: b.elements }

/-- The blanks at the end of a text, given backwards. -/
def blanksBefore (behind : List Char) : Option String :=
  match (behind.takeWhile Text.isLineBlank).reverse with
  | [] => none
  | blanks => some (String.ofList blanks)

/-- A partial call with the indentation of its tag. -/
def indented (call : PartialCall) (b : Build) (p : Piece) : PartialCall :=
  { call with
    indent := if p.trimBefore then none else blanksBefore p.start.behind
    startsLine := b.dropLine && !p.trimBefore }

/-- Adds a tag to a partly built template. -/
def addTag (b : Build) (p : Piece) (source : String) (isPartial : Bool) :
    Except CompileError Build :=
  let trimmed := b.trimAround p
  let alone := trimmed.standAlone p isPartial
  let startsLine := alone.dropLine && !p.trimBefore
  let place := p.start.position
  match p.tag with
  | .text s => pure (b.pushText (b.stop.upTo p.start ++ s) b.trim)
  | .rawText s =>
    let body := ({ b with elements := [] } : Build).pushText s b.trim
    pure { b with elements := body.elements, dropLine := b.dropLine }
  | .comment => pure ((b.standAlone p isPartial).push .comment p)
  | .mustache (.inl call) escaped => pure (trimmed.push (.call call escaped) p)
  | .mustache (.inr param) escaped => pure (trimmed.push (.value param escaped) p)
  | .blockStart call =>
    pure (alone.openBlock (.helper call.name place [] (some ⟨call, startsLine⟩)))
  | .rawStart call =>
    pure (alone.openBlock (.helper call.name place [] (some ⟨call, startsLine⟩)))
  | .elseIf call => pure (alone.nextBranch (some ⟨call, startsLine⟩))
  | .otherwise => pure (alone.nextBranch none)
  | .decorator call => pure (alone.push (.decorator call none) p)
  | .decoratorStart call => pure (alone.openBlock (.decorator call place))
  | .inclusion call => pure (alone.push (.inclusion (indented call alone p) none) p)
  | .inclusionStart call =>
    pure (alone.openBlock (.partialBlock { call with startsLine } place))
  | .close name => alone.closeBlock name source p

/-- Whether a piece is text, so that the blanks in front of it belong to it. -/
def isText : Tag → Bool
  | .text _ => true
  | .rawText _ => true
  | _ => false

/-- Adds a piece to a partly built template. -/
def addPiece (source : String) (isPartial : Bool) (b : Build) (p : Piece) :
    Except CompileError Build := do
  let b := if isText p.tag then b else b.pushGap p.start
  if let some text := p.stop.misread then throw (.badLiteral text)
  let b ← b.addTag p source isPartial
  pure { b with stop := p.stop }

end Build

/-- The elements of a template text. -/
def elementsOf (source : String) (isPartial : Bool) :
    Except CompileError (List (Element × Option Position)) := do
  let some (pieces, stop) := pieces? source | throw .malformed
  let start : Build := ⟨false, false, [], [], Cursor.start source.toList⟩
  let b ← pieces.foldlM (Build.addPiece source isPartial) start
  let b := b.pushGap stop
  pure b.elements.reverse

/-- Compiles the text of a template under a name, which decides nothing but the name. -/
def compile (name source : String) (isPartial : Bool) : Except CompileError Template :=
  (elementsOf source isPartial).map (.mk (some name))

end Views.Template
