import Views.Scope
import Views.Template.Build

/-!
# The registry

The compiled templates and partials by name, in one table, and the helpers that templates may call.
A later registration replaces an earlier one, and a text that does not compile changes nothing.
-/

set_option autoImplicit false

namespace Views

/-- The comparisons of two values. -/
inductive Comparison where
  | equal
  | notEqual
  | greater
  | greaterOrEqual
  | less
  | lessOrEqual
  deriving DecidableEq

/-- What a helper does. -/
inductive Helper where
  /-- Renders its body if a value is true, or if it is not. -/
  | condition (positive : Bool)
  /-- Renders its body for each element of a list or an object. -/
  | each
  /-- Renders its body with a value as context. -/
  | within
  /-- Renders its body. -/
  | verbatim
  /-- Checks its level and writes nothing. -/
  | log
  /-- Gives an element of a list or an object. -/
  | lookup
  | compare (c : Comparison)
  /-- Whether all arguments are true. -/
  | all
  /-- Whether some argument is true. -/
  | any
  | negation
  /-- The size of a text in bytes, or the number of elements. -/
  | size
  /-- Writes the block of a name and empties it. -/
  | emitBlock
  /-- Renders its body into the block of a name. -/
  | captureBlock
  /-- Writes a text made of the data of the scope. -/
  | ofScopeData (text : Fields → String)

/-- The helpers every registry starts with. -/
def Helper.builtin : Table Helper :=
  Table.ofList
    [("if", .condition true), ("unless", .condition false), ("each", .each), ("with", .within),
      ("raw", .verbatim), ("log", .log), ("lookup", .lookup), ("eq", .compare .equal),
      ("ne", .compare .notEqual), ("gt", .compare .greater), ("gte", .compare .greaterOrEqual),
      ("lt", .compare .less), ("lte", .compare .lessOrEqual), ("and", .all), ("or", .any),
      ("not", .negation), ("len", .size)]

/-- Compiled templates and helpers, and how values are written. -/
structure Registry where
  templates : Table Template
  helpers : Table Helper
  /-- Whether a missing value is an error. -/
  strict : Bool
  /-- Whether values are escaped for a page. -/
  escaping : Bool

namespace Registry

/-- No template, and the helpers that are always there. -/
def new (strict escaping : Bool) : Registry := ⟨[], Helper.builtin, strict, escaping⟩

/-- Whether a template or partial of this name is registered. -/
def hasTemplate (r : Registry) (name : String) : Bool := r.templates.contains name

/-- Compiles a text and registers it under a name; partials and templates differ in what the end of
the text means for white space. -/
def register (r : Registry) (name source : String) (isPartial : Bool) :
    Except Template.CompileError Registry := do
  let t ← Template.compile name source isPartial
  pure { r with templates := r.templates.insert name t }

/-- Registers a helper under a name. -/
def withHelper (r : Registry) (name : String) (h : Helper) : Registry :=
  { r with helpers := r.helpers.insert name h }

/-- Registers the helpers for content blocks; the second name wins if both are the same. -/
def withBlockHelpers (r : Registry) (blockName contentName : String) : Registry :=
  (r.withHelper blockName .emitBlock).withHelper contentName .captureBlock

end Registry

end Views
