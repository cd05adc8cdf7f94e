import Views.Registry
import Views.Text.Quoted

/-!
# The state of an evaluation

Rendering a template writes output, changes the content blocks of the scope and walks through
contexts. An error ends the rendering, but what was captured before it stays in the scope. An error
points at the innermost element with a place and names the innermost template with a name.
-/

set_option autoImplicit false

namespace Views.Evaluation

/-! ## Errors -/

/-- Why an element could not be rendered. -/
inductive Reason where
  | templateNotFound (name : String)
  | helperNotFound (name : String)
  | decoratorNotFound (name : String)
  | partialNotFound (name : String)
  | partialBlockNotFound
  | selfInclusion
  | missingArgument (helper : String) (index : Nat)
  | missingNamedArgument (helper name : String)
  | nameExpected
  | bodyExpected
  | badIndex (key : String)
  | badLevel (level : String)
  | missingValue (reference : Option String)
  | blockNameExpected (helper : String)
  /-- Partials include each other deeper than this library follows them (`maxNesting`). The template
  language has neither the bound nor this error. -/
  | tooDeep
  deriving DecidableEq

/-- The text of a reason. -/
def Reason.message : Reason → String
  | templateNotFound name => "Template not found " ++ name
  | helperNotFound name => "Helper not found " ++ name
  | decoratorNotFound name => "Decorator not found " ++ name
  | partialNotFound name => "Partial not found " ++ name
  | partialBlockNotFound => "Partial block cound not be found"
  | selfInclusion => "Can not include current template in partial"
  | missingArgument helper index =>
    "Helper/Decorator " ++ helper ++ " param at index " ++ toString index ++
      " required but not found"
  | missingNamedArgument helper name =>
    "Helper/Decorator " ++ helper ++ " param with name " ++ name ++ " required but not found"
  | nameExpected => "Invalid param type, String expected"
  | bodyExpected => "Block content required"
  | badIndex key => "Cannot access array/vector with string index, " ++ key
  | badLevel level => "Invalid logging level: " ++ level
  | missingValue reference =>
    "Failed to access variable in strict mode " ++
      match reference with
      | some raw => "Some(" ++ Text.quote raw ++ ")"
      | none => "None"
  | blockNameExpected helper => "Helper `" ++ helper ++ "` requires a block name"
  | tooDeep => "Partials are nested too deeply"

/-- An error with the place it points at and the template it names. -/
structure RenderError where
  reason : Reason
  place : Option Position
  template : Option String
  deriving DecidableEq

/-- The text of an error. -/
def RenderError.message (e : RenderError) : String :=
  match e.place with
  | some place =>
    "Error rendering \"" ++ e.template.getD "Unnamed template" ++ "\" line " ++
      toString place.line ++ ", col " ++ toString place.column ++ ": " ++ e.reason.message
  | none => e.reason.message

/-! ## Contexts -/

/-- A context: its value, its loop variables, its block parameters and the partials defined inside
of it. -/
structure Context where
  base : Value
  loopVariables : Table Value
  params : Table Value
  inlines : Table Template

/-- A context with a value and nothing else. -/
def Context.of (base : Value) : Context := ⟨base, [], [], []⟩

/-! ## State -/

/-- The state of an evaluation. -/
structure State where
  out : String
  scope : Scope
  /-- The contexts, the innermost first. -/
  contexts : List Context
  /-- What the body of the partial tag that included the current template has written. -/
  body? : Option String
  /-- The registered name of the template being rendered; none inside of a block. -/
  current : Option String
  /-- The indentation of the lines written. -/
  indent : Option String
  /-- Whether the next text starts a line and is to be indented. -/
  indentNext : Bool
  /-- Whether the last text written ends its line. -/
  lineEnded : Bool
  /-- Whether the element being rendered has written a text. -/
  produced : Bool
  /-- Whether values are written as they are. -/
  escapeOff : Bool

/-- The state at the start of a template. -/
def State.start (scope : Scope) (root : Value) : State :=
  { out := "", scope, contexts := [.of root], body? := none, current := none
    indent := none, indentNext := false, lineEnded := false, produced := false, escapeOff := false }

/-- What does not change during an evaluation. -/
structure Environment where
  registry : Registry
  root : Value

/-- An evaluation: it can fail, and keeps its state in both cases. -/
abbrev Render := ExceptT RenderError (StateM State)

/-- Ends an evaluation. -/
def fail {α : Type} (reason : Reason) : Render α := throw ⟨reason, none, none⟩

/-- Gives the errors of an element its place, and the name of its template. -/
def locate {α : Type} (template : Option String) (place : Option Position) (r : Render α) :
    Render α := fun s =>
  match r s with
  | (.error e, s) =>
    (.error { e with place := e.place <|> place, template := e.template <|> template }, s)
  | done => done

/-- Runs an evaluation and gives what it writes instead of writing it. -/
def capture (r : Render Unit) : Render String := do
  let before ← modifyGet fun s => (s.out, { s with out := "" })
  r
  modifyGet fun s => (s.out, { s with out := before })

/-! ## Output -/

/-- Writes a text as it is. -/
def emit (text : String) : Render Unit := modify fun s => { s with out := s.out ++ text }

/-- A text with an indentation in front of each of its lines but the first; no line starts at the
end of the text. -/
def indentLines (indent : List Char) : List Char → List Char
  | [] => []
  | ['\n'] => ['\n']
  | '\n' :: rest => '\n' :: (indent ++ indentLines indent rest)
  | c :: rest => c :: indentLines indent rest

/-- What writing a text adds to the output. -/
def State.indented (s : State) (text : String) : String :=
  match s.indent with
  | none => text
  | some indent =>
    (if s.indentNext && !text.toList.head?.any Text.isLineBreak then indent else "") ++
      String.ofList (indentLines indent.toList text.toList)

/-- Writes a text with the indentation of its lines. -/
def write (text : String) : Render Unit :=
  if text = "" then pure ()
  else modify fun s =>
    let ended := text.toList.getLast?.any Text.isLineBreak
    { s with
      out := s.out ++ s.indented text
      produced := true
      lineEnded := ended
      indentNext := ended }

/-- Runs the rendering of one element with its own record of what it wrote. -/
def tracked (indentNext : State → Bool) (r : Render Unit) : Render Unit := do
  let before ← get
  modify fun s => { s with indentNext := indentNext s, produced := false }
  r
  modify fun s =>
    if s.produced then { s with indentNext := s.lineEnded }
    else { s with produced := before.produced, indentNext := before.indentNext }

/-! ## Escaping -/

/-- The form of a character in a page. -/
def escapeChar (c : Char) : String :=
  if c = '&' then "&amp;"
  else if c = '<' then "&lt;"
  else if c = '>' then "&gt;"
  else if c = '\x22' then "&quot;"
  else if c = '\x27' then "&#x27;"
  else if c = '\x60' then "&#x60;"
  else if c = '=' then "&#x3D;"
  else c.toString

/-- A text in a form that a page shows as it is. -/
def escape (text : String) : String := String.join (text.toList.map escapeChar)

/-- Writes the text of a value, escaped unless escaping is off. -/
def writeValue (env : Environment) (v : Value) : Render Unit := do
  let s ← get
  let text := v.render
  write (if s.escapeOff || !env.registry.escaping then text else escape text)

end Views.Evaluation
