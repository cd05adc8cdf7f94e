import Views.Yaml.Node
import Views.Yaml.Plain

/-!
# Decoding YAML documents

Nodes as values, and as parts of a typed document. Aliases are followed, but only a hundred times as
often as the document is long, and collections are nested at most 128 deep.
-/

set_option autoImplicit false

namespace Views.Yaml

/-- Decoding keeps the number of aliases that may still be followed. -/
abbrev Decoding := StateT Nat Option

/-- A node that is no alias. -/
def follow (d : Document) : Node → Decoding Node
  | .alias slot => do
    let left ← get
    if left = 0 then failure
    set (left - 1)
    match d.slot? slot with
    | some node => pure node
    | none => failure
  | node => pure node

/-- A result, or a failure. -/
def orFail {α : Type} : Option α → Decoding α
  | some a => pure a
  | none => failure

/-- The text of a scalar. -/
def textOf (d : Document) (node : Node) : Decoding String := do
  match ← follow d node with
  | .scalar _ text _ => pure text
  | _ => failure

/-- The value of a node, in which `n` more levels of collections may be opened. -/
def valueOf (d : Document) : Nat → Node → Decoding Value
  | 0, node => do
    match ← follow d node with
    | .scalar tag text style => orFail (scalarValue? tag text style)
    | _ => failure
  | n + 1, node => do
    match ← follow d node with
    | .scalar tag text style => orFail (scalarValue? tag text style)
    | .sequence tag items =>
      if isOwnTag tag then failure
      pure (.array (← items.mapM (valueOf d n)))
    | .mapping tag pairs =>
      if isOwnTag tag then failure
      let fields ← pairs.mapM fun (key, value) => do
        let key ← textOf d key
        pure (key, ← valueOf d n value)
      pure (.object (Table.ofList fields))
    | .alias _ => failure

/-! ## Typed parts -/

/-- A part of a document: a node, and how many levels of collections may be opened in it. -/
structure Part where
  levels : Nat
  node : Node

/-- Whether a node is a plain scalar without a text, which counts as an empty mapping. -/
def isEmptyScalar : Node → Bool
  | .scalar _ "" .plain => true
  | _ => false

/-- The pairs of a mapping, with the levels left inside of it. -/
def pairsOf (d : Document) (p : Part) : Decoding (Nat × List (Node × Node)) := do
  let node ← follow d p.node
  if isEmptyScalar node then pure (p.levels, [])
  else
    match node, p.levels with
    | .mapping _ pairs, n + 1 => pure (n, pairs)
    | _, _ => failure

/-- The text of a scalar, or nothing where a plain scalar is null. -/
def optionalTextOf (d : Document) (node : Node) : Decoding (Option String) := do
  match ← follow d node with
  | .scalar tag text style =>
    if style ≠ .plain then pure (some text)
    else if tag = some (standard ++ "null") then
      if isNull text then pure none else failure
    else if tag.isSome then pure (some text)
    else pure (if text = "" ∨ isNull text then none else some text)
  | _ => failure

/-- The truth value of a plain scalar, or of a literal block with its tag. -/
def flagOf (d : Document) (node : Node) : Decoding Bool := do
  match ← follow d node with
  | .scalar tag text style =>
    if style = .plain ∨ (style = .literal ∧ tag = some (standard ++ "bool")) then
      orFail (flagOf? text)
    else failure
  | _ => failure

/-- The parts of a mapping by their keys; a known key stands at most once. -/
def partsOf (d : Document) (keys : List String) (p : Part) : Decoding (List (String × Part)) := do
  let (levels, pairs) ← pairsOf d p
  let parts ← pairs.mapM fun (key, value) => do
    let key ← textOf d key
    pure (key, Part.mk levels value)
  let known := (parts.map Prod.fst).filter keys.contains
  if known.eraseDups.length < known.length then failure
  pure parts

/-- The fields of a mapping, as values. -/
def fieldsOf (d : Document) (p : Part) : Decoding (Table Value) := do
  let (levels, pairs) ← pairsOf d p
  let fields ← pairs.mapM fun (key, value) => do
    let key ← textOf d key
    pure (key, ← valueOf d levels value)
  pure (Table.ofList fields)

end Views.Yaml
