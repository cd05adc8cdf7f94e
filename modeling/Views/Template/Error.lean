import Views.Template.Tree
import Views.Text.Aligned
import Views.Text.Quoted

/-!
# Errors in template texts

A text can be refused because it does not fit the grammar, because a literal in it denotes no value,
or because a closing tag does not name the block it closes. The last kind shows the lines around the
closing tag.
-/

set_option autoImplicit false

namespace Views.Template

/-- The kinds of blocks that a closing tag names. -/
inductive BlockKind where
  | helper
  | decorator
  deriving DecidableEq

/-- Why a template text is refused. -/
inductive CompileError where
  | malformed
  | badLiteral (text : String)
  | mismatch (kind : BlockKind) (opened closing : String) (source : String) (place : Position)
  deriving DecidableEq

/-- The lines of a text; a line break is a newline, with or without a carriage return before it. -/
def linesOf (text : List Char) : List (List Char) :=
  let pieces := text.splitOn '\n'
  let ended := pieces.dropLast.map fun line =>
    if line.getLast? = some '\r' then line.dropLast else line
  ended ++ (pieces.getLast?.filter (· ≠ [])).toList

/-- A rule as long as a line, counted in bytes, with a mark at a column. -/
def ruleUnder (line : List Char) (column : Nat) : String :=
  String.ofList ((List.range (String.ofList line).utf8ByteSize).map fun i =>
    if i = column then '^' else '-')

/-- The lines around a place, with a rule under the line before the one it counts. -/
def excerpt (source : String) (place : Position) : String :=
  String.join ((linesOf source.toList).zipIdx.map fun (line, n) =>
    if place.line - 3 ≤ n ∧ n ≤ place.line + 3 then
      Text.aligned n ++ " | " ++ String.ofList line ++ "\n" ++
        (if n + 1 = place.line then "     |" ++ ruleUnder line place.column ++ "\n" else "")
    else "")

/-- The word for a kind of block. -/
def BlockKind.word : BlockKind → String
  | helper => "helper"
  | decorator => "decorator"

/-- The text of an error in the template of a name. -/
def CompileError.message (name : String) : CompileError → String
  | malformed => "Template error: invalid handlebars syntax"
  | badLiteral text => "invalid parameter " ++ Text.quote text
  | mismatch kind opened closing source place =>
    let reason := kind.word ++ " " ++ Text.quote opened ++ " was opened, but " ++
      Text.quote closing ++ " is closing"
    "Template error: " ++ reason ++ "\n    --> Template error in \"" ++ name ++ "\":" ++
      toString place.line ++ ":" ++ toString place.column ++ "\n     |\n" ++ excerpt source place ++
      "     |\n     = reason: " ++ reason ++ "\n"

end Views.Template
