import Views.Table
import Views.Yaml.Token

/-!
# Nodes of a YAML document

`Document.ofTokens?` reads the one document of a text. An alias stays a node of its own: it names a
slot, and slots are filled by anchored nodes. The slot of an anchor is the number of distinct names
of anchors before it, so an anchor whose name was used before can take the slot of another one; of
several nodes in one slot the one that starts last counts.
-/

set_option autoImplicit false

namespace Views.Yaml

/-- A node. -/
inductive Node where
  | scalar (tag : Option String) (text : String) (style : Style)
  | sequence (tag : Option String) (items : List Node)
  | mapping (tag : Option String) (pairs : List (Node × Node))
  | alias (slot : Nat)

/-- A node in a slot; `order` counts the anchors in the order of their nodes' starts. -/
structure Anchored where
  order : Nat
  slot : Nat
  node : Node

/-- A document: its root, if the text holds more than comments, the anchored nodes, and its size,
in which a collection counts twice. -/
structure Document where
  root : Option Node
  anchored : List Anchored
  size : Nat

/-- The state of reading a document. -/
structure Parsing where
  tokens : List Token
  /-- What the handles of tags stand for. -/
  handles : Table String
  /-- The slots of the names of anchors. -/
  names : Table Nat
  anchors : Nat
  anchored : List Anchored
  size : Nat

/-- A reader of part of a document. -/
abbrev Parser := StateT Parsing Option

namespace Parser

/-- The next token. -/
def next : Parser Token := fun s => s.tokens.head?.map fun t => (t, s)

/-- Moves over the next token. -/
def drop : Parser Unit := modify fun s => { s with tokens := s.tokens.tail }

/-- Counts parts of the document. -/
def count (n : Nat) : Parser Unit := modify fun s => { s with size := s.size + n }

/-- A plain scalar without a text. -/
def emptyScalar (tag : Option String) : Parser Node := do
  count 1
  pure (.scalar tag "" .plain)

/-! ## Properties of nodes -/

/-- The tag that a handle and a suffix denote. -/
def tagOf (handle suffix : String) : Parser String := do
  if handle = "" then pure suffix
  else
    match (← get).handles.get? handle with
    | some lead => pure (lead ++ suffix)
    | none => failure

/-- Reads a tag, if there is one. -/
def tag? : Parser (Option String) := do
  match ← next with
  | .tag handle suffix =>
    drop
    some <$> tagOf handle suffix
  | _ => pure none

/-- Reads an anchor, if there is one, and gives it a slot. -/
def anchor? : Parser (Option (Nat × Nat)) := do
  match ← next with
  | .anchor name =>
    drop
    let s ← get
    let slot := s.names.length
    set { s with names := s.names.insert name slot, anchors := s.anchors + 1 }
    pure (some (s.anchors, slot))
  | _ => pure none

/-- The anchor and the tag of a node, in either order. -/
def properties : Parser (Option (Nat × Nat) × Option String) := do
  match ← anchor? with
  | some place => pure (some place, ← tag?)
  | none =>
    let tag ← tag?
    match tag with
    | some _ => pure (← anchor?, tag)
    | none => pure (none, none)

/-- Keeps an anchored node. -/
def keep (place : Option (Nat × Nat)) (node : Node) : Parser Node := do
  if let some (order, slot) := place then
    modify fun s => { s with anchored := ⟨order, slot, node⟩ :: s.anchored }
  pure node

/-! ## Collections -/

/-- Reads a node with `node`, or takes an empty scalar where one of some tokens follows. -/
def nodeUnless (ends : List Token) (node : Parser Node) : Parser Node := do
  if ends.contains (← next) then emptyScalar none else node

mutual

/-- Reads a node. Lines of their own may hold it if `block` says so; a sequence may then stand at
the column of its key if `indentless` does. -/
def node : Nat → (block indentless : Bool) → Parser Node
  | 0, _, _ => failure
  | n + 1, block, indentless => do
    if let .alias name ← next then
      drop
      count 1
      match (← get).names.get? name with
      | some slot => pure (.alias slot)
      | none => failure
    else
      let (place, tag) ← properties
      match ← next with
      | .scalar text style =>
        drop
        count 1
        keep place (.scalar tag text style)
      | .flowSequenceStart =>
        drop
        count 2
        keep place (.sequence tag (← flowItems n true))
      | .flowMappingStart =>
        drop
        count 2
        keep place (.mapping tag (← flowPairs n true))
      | t =>
        if indentless && t == .blockEntry then
          count 2
          keep place (.sequence tag (← indentlessItems n))
        else if block && t == .blockSequenceStart then
          drop
          count 2
          keep place (.sequence tag (← blockItems n))
        else if block && t == .blockMappingStart then
          drop
          count 2
          keep place (.mapping tag (← blockPairs n))
        else if place.isSome || tag.isSome then keep place (← emptyScalar tag)
        else failure

/-- Reads the items of a sequence on lines of its own, up to its end. -/
def blockItems : Nat → Parser (List Node)
  | 0 => failure
  | n + 1 => do
    match ← next with
    | .blockEntry =>
      drop
      let item ← nodeUnless [.blockEntry, .blockEnd] (node n true false)
      pure (item :: (← blockItems n))
    | .blockEnd =>
      drop
      pure []
    | _ => failure

/-- Reads the items of a sequence at the column of its key. -/
def indentlessItems : Nat → Parser (List Node)
  | 0 => failure
  | n + 1 => do
    match ← next with
    | .blockEntry =>
      drop
      let item ← nodeUnless [.blockEntry, .key, .value, .blockEnd] (node n true false)
      pure (item :: (← indentlessItems n))
    | _ => pure []

/-- Reads the pairs of a mapping on lines of its own, up to its end. -/
def blockPairs : Nat → Parser (List (Node × Node))
  | 0 => failure
  | n + 1 => do
    let ends := [Token.key, .value, .blockEnd]
    match ← next with
    | .key =>
      drop
      let key ← nodeUnless ends (node n true true)
      let value ← (do
        if (← next) == .value then
          drop
          nodeUnless ends (node n true true)
        else emptyScalar none)
      pure ((key, value) :: (← blockPairs n))
    | .blockEnd =>
      drop
      pure []
    | _ => failure

/-- Reads the value of a pair in brackets, if its mark is there. -/
def flowValue : Nat → Token → Parser Node
  | 0, _ => failure
  | n + 1, close => do
    if (← next) == .value then
      drop
      nodeUnless [.flowEntry, close] (node n false false)
    else emptyScalar none

/-- Reads the items of a sequence in brackets, up to its end. -/
def flowItems : Nat → (first : Bool) → Parser (List Node)
  | 0, _ => failure
  | n + 1, first => do
    if (← next) == .flowSequenceEnd then
      drop
      pure []
    else
      if !first then
        if (← next) == .flowEntry then drop else failure
      match ← next with
      | .flowSequenceEnd =>
        drop
        pure []
      | .key =>
        drop
        count 2
        let t ← next
        let key ← (
          if [Token.value, .flowEntry, .flowSequenceEnd].contains t then do
            drop
            emptyScalar none
          else node n false false)
        let value ← flowValue n .flowSequenceEnd
        pure (.mapping none [(key, value)] :: (← flowItems n false))
      | _ =>
        let item ← node n false false
        pure (item :: (← flowItems n false))

/-- Reads the pairs of a mapping in brackets, up to its end. -/
def flowPairs : Nat → (first : Bool) → Parser (List (Node × Node))
  | 0, _ => failure
  | n + 1, first => do
    if (← next) == .flowMappingEnd then
      drop
      pure []
    else
      if !first then
        if (← next) == .flowEntry then drop else failure
      match ← next with
      | .flowMappingEnd =>
        drop
        pure []
      | .key =>
        drop
        let key ← nodeUnless [.value, .flowEntry, .flowMappingEnd] (node n false false)
        let value ← flowValue n .flowMappingEnd
        pure ((key, value) :: (← flowPairs n false))
      | _ =>
        let key ← node n false false
        let value ← emptyScalar none
        pure ((key, value) :: (← flowPairs n false))

end

/-! ## Documents -/

/-- The handles that every document has. -/
def standardHandles : Table String := Table.ofList [("!", "!"), ("!!", "tag:yaml.org,2002:")]

/-- Reads the directives of a document; each handle is given at most once, and so is the version,
which is 1.1 or 1.2. Says whether there are any. -/
def directives (version : Bool) (handles : Table String) : Nat → Parser Bool
  | 0 => failure
  | n + 1 => do
    match ← next with
    | .versionDirective major minor =>
      if version || major ≠ 1 || (minor ≠ 1 && minor ≠ 2) then failure
      drop
      let _ ← directives true handles n
      pure true
    | .tagDirective handle lead =>
      if handles.contains handle then failure
      drop
      let _ ← directives version (handles.insert handle lead) n
      pure true
    | _ =>
      modify fun s => { s with handles := standardHandles.union handles }
      pure false

/-- Moves over the ends of documents. -/
def documentEnds : Nat → Parser Unit
  | 0 => pure ()
  | n + 1 => do
    if (← next) == .documentEnd then
      drop
      documentEnds n

/-- Reads the text of one document. -/
def document : Parser (Option Node) := do
  let n := 3 * (← get).tokens.length + 3
  if (← next) == .streamEnd then pure none
  else
    let directed ← directives false [] n
    let root ← (do
      if (← next) == .documentStart then
        drop
        let s ← get
        match s.tokens.head? with
        | some (.versionDirective ..) => emptyScalar none
        | some (.tagDirective ..) => emptyScalar none
        | some .documentStart => emptyScalar none
        | some .documentEnd => emptyScalar none
        | some .streamEnd => emptyScalar none
        | _ => node n true false
      else if directed then failure
      else node n true false)
    documentEnds n
    if (← next) == .streamEnd then pure (some root) else failure

end Parser

namespace Document

/-- The document of some tokens. -/
def ofTokens? (tokens : List Token) : Option Document :=
  (Parser.document ⟨tokens, [], [], 0, [], 0⟩).map fun (root, s) => ⟨root, s.anchored, s.size⟩

/-- The document of a text. -/
def read? (text : String) : Option Document := (tokens? text).bind ofTokens?

/-- The node in a slot. -/
def slot? (d : Document) (slot : Nat) : Option Node :=
  let candidates := d.anchored.filter fun a => a.slot == slot
  (candidates.foldl (fun (best : Option Anchored) a =>
    match best with
    | some b => if b.order < a.order then some a else some b
    | none => some a) none).map Anchored.node

end Document

end Views.Yaml
