import Views.Value

/-!
# Templates

The tree that a template text denotes. White space is settled while the tree is built, so an element
carries only what its rendering needs: a tag that has a line to itself is marked, because what it
writes may be indented.
-/

set_option autoImplicit false

namespace Views

/-- A place in a template text; lines and columns count from one. -/
structure Position where
  line : Nat
  column : Nat
  deriving DecidableEq

/-- Where a reference looks for its value. -/
inductive Target where
  /-- A variable of the surrounding loop, or of one `level` steps further out. -/
  | loopVariable (level : Nat) (name : String)
  /-- The data of the whole render. -/
  | fromRoot (keys : List String)
  /-- The current value, or the one `ups` steps further out. -/
  | relative (ups : Nat) (keys : List String)
  deriving DecidableEq

/-- A reference to a value, with its spelling. -/
structure Reference where
  raw : String
  target : Target
  deriving DecidableEq

/-- A parameter of a tag. -/
inductive Param where
  | reference (r : Reference)
  | literal (v : Value)
  /-- A call between parentheses. -/
  | call (name : String) (args : List Param) (hash : List (String × Param))

/-- A call: its arguments by position and by name, and the names of its block parameters. -/
structure Call where
  name : String
  args : List Param
  hash : List (String × Param)
  blockParams : List String

/-- The template that a partial tag includes: a fixed name, or one computed by a parameter. -/
inductive PartialName where
  | fixed (name : String)
  | computed (p : Param)

/-- A partial tag: what it includes, the context it passes on, and its indentation. -/
structure PartialCall where
  name : PartialName
  args : List Param
  hash : List (String × Param)
  /-- The blanks before a tag on its own line. -/
  indent : Option String
  /-- Whether the tag starts its line. -/
  startsLine : Bool

mutual

/-- A template: the name it is registered under, if it is not a part of another one, and its
elements with the places errors point at. -/
inductive Template where
  | mk (name : Option String) (elements : List (Element × Option Position))

/-- An element of a template. -/
inductive Element where
  | text (s : String)
  | comment
  /-- The value of a parameter that stands alone in its tag. -/
  | value (p : Param) (escaped : Bool)
  /-- A call of a helper without a body. -/
  | call (c : Call) (escaped : Bool)
  /-- A call of a helper with a body and an alternative. -/
  | block (c : Call) (body : Template) (alternative : Option Template) (startsLine : Bool)
  /-- An inclusion, with the body that the included template may use. -/
  | inclusion (c : PartialCall) (body : Option Template)
  /-- A decorator, with its body. -/
  | decorator (c : Call) (body : Option Template)

end

namespace Template

/-- The registered name. -/
def name? : Template → Option String
  | mk name _ => name

/-- The elements and their places. -/
def elements : Template → List (Element × Option Position)
  | mk _ elements => elements

end Template

end Views
