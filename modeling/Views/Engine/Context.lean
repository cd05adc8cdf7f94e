import Views.Engine.Render
import Views.Text.Quoted

/-!
# Contexts of requests

A context is the part of a request that rendering needs: the state, the request as data for helpers,
and the body of the response, which a successful render sets. A context renders through the engine
that is attached to it.
-/

set_option autoImplicit false

namespace Views

/-- A request being answered. -/
structure ViewContext where
  state : Fields := []
  request : Value := .null
  body : Option String := none
  engine : Option Engine := none

namespace ViewContext

/-- Sets one variable of the state. -/
def setState (c : ViewContext) (key : String) (value : Value) : ViewContext :=
  { c with state := Table.insert c.state key value }

/-- Selects a theme. -/
def setTheme (c : ViewContext) (theme : String) : ViewContext := c.setState "theme" (.string theme)

/-- Attaches an engine. -/
def attach (c : ViewContext) (e : Engine) : ViewContext := { c with engine := some e }

/-- Whether an engine is attached. -/
def isAttached (c : ViewContext) : Bool := c.engine.isSome

/-! ## Description -/

mutual

/-- The description of a value, with the kind of each part. -/
def describeValue : Value → String
  | .null => "Null"
  | .bool b => "Bool(" ++ (if b then "true" else "false") ++ ")"
  | .number n => "Number(" ++ n.toText ++ ")"
  | .string s => "String(" ++ Text.quote s ++ ")"
  | .array xs => "Array [" ++ describeItems xs ++ "]"
  | .object fs => "Object \x7b" ++ describeFields fs ++ "\x7d"

/-- The descriptions of elements, between commas. -/
def describeItems : List Value → String
  | [] => ""
  | [x] => describeValue x
  | x :: y :: rest => describeValue x ++ ", " ++ describeItems (y :: rest)

/-- The descriptions of fields, between commas. -/
def describeFields : List (String × Value) → String
  | [] => ""
  | [(k, v)] => Text.quote k ++ ": " ++ describeValue v
  | (k, v) :: f :: rest =>
    Text.quote k ++ ": " ++ describeValue v ++ ", " ++ describeFields (f :: rest)

end

/-- The description of a context, on one line. -/
def describe (c : ViewContext) : String :=
  "ViewContext \x7b state: \x7b" ++ describeFields c.state ++ "\x7d, request: " ++
    describeValue c.request ++ ", body: " ++
    (match c.body with
      | some body => "Some(" ++ Text.quote body ++ ")"
      | none => "None") ++
    ", attached: " ++ (if c.isAttached then "true" else "false") ++ " \x7d"

end ViewContext

namespace Engine

/-- Renders a view into the body of a context; a failure leaves the context as it is. -/
def render (e : Engine) (c : ViewContext) (name : String) (locals : Fields) :
    Program (Except ViewError Unit × ViewContext) := do
  match ← (e.renderView c.state c.request name locals).run with
  | .ok output => return (.ok (), { c with body := some output })
  | .error err => return (.error err, c)

/-- Attaches the engine to a context and hands it on. -/
def handle (e : Engine) (c : ViewContext)
    (next : ViewContext → Program (Except ViewError ViewContext)) :
    Program (Except ViewError ViewContext) :=
  next (c.attach e)

end Engine

/-- Renders a view into the body of a context, through its engine. -/
def ViewContext.render (c : ViewContext) (name : String) (locals : Fields) :
    Program (Except ViewError Unit × ViewContext) :=
  match c.engine with
  | some e => e.render c name locals
  | none => return (.error .notAttached, c)

end Views
