import Views.Cli.Data
import Views.Engine.Context

/-!
# The commands

Each command as a program of the engine: `renderText` renders a view, `partialNames` lists the
partials, `layoutOf` finds the layout that a view gets when neither variables nor a theme are given.
-/

set_option autoImplicit false

namespace Views.Cli

/-! ## Rendering -/

/-- The data of a render on the command line. -/
structure RenderData where
  locals : Fields
  state : Fields
  request : Value

/-- Reads the texts of the data, in the order in which a fault is reported. -/
def RenderData.ofTexts (locals state request : Option String) : Except Report RenderData := do
  let locals ← readObject locals "locals"
  let state ← readObject state "state"
  let request ← match request with
    | some text => readJson text "request"
    | none => pure .null
  pure { locals, state, request }

/-- Renders a view. -/
def renderText (e : Engine) (name : String) (data : RenderData) (theme : Option String) :
    Program (Except Report String) := do
  let context : ViewContext := { state := data.state, request := data.request }
  let context := match theme with
    | some theme => context.setTheme theme
    | none => context
  let rendered ← e.handle context fun c => do
    let (result, c) ← c.render name data.locals
    return result.map fun () => c
  match rendered with
  | .ok c => return .ok (c.body.getD "")
  | .error err => return .error (.context ("Failed to render " ++ name) err.report)

/-! ## Partials -/

/-- The name under which a file below the directory of the partials is shown. -/
def shownName (extname path : String) : String :=
  Files.dropEnding (Files.forwardSlashes path) extname

/-- The names of all partials. -/
def partialNames (config : Config) : Program (Except Report (List String)) := do
  if config.partialsEnabled then
    match ← Program.request (.list config.partialsPath config.extname) with
    | .ok files => return .ok (files.map (shownName config.extname))
    | .error err => return .error err.report
  else return .error (.of "No partials-path configured")

/-- Names on lines of their own. -/
def lines (names : List String) : String := String.join (names.map (· ++ "\n"))

/-! ## Layouts -/

/-- The layout of a view. -/
inductive ShownLayout where
  /-- The view names it. -/
  | marked (name path : String)
  /-- The configuration names it. -/
  | configured (name path : String)
  /-- There is none. -/
  | absent
  deriving DecidableEq

/-- The line that shows a layout. -/
def ShownLayout.text : ShownLayout → String
  | marked name path => name ++ " -> " ++ path ++ "\n"
  | configured name path => name ++ " (default) -> " ++ path ++ "\n"
  | absent => "(none)\n"

/-- The layout that the text of a view leads to. -/
def layoutOfText (e : Engine) (source : String) : ShownLayout :=
  match Markers.layoutName? source with
  | some name => .marked name (e.resolver.layoutPath name)
  | none =>
    match e.config.defaultLayoutName? with
    | some name => .configured name (e.resolver.layoutPath name)
    | none => .absent

/-- The layout of a view. -/
def layoutOf (e : Engine) (name : String) : Program (Except Report ShownLayout) := do
  match ← e.resolver.resolve name with
  | none => return .error (.of ("Template not found: " ++ e.resolver.templatePath name))
  | some path =>
    match ← Program.request (.read path) with
    | .ok source => return .ok (layoutOfText e source)
    | .error err => return .error err.report

end Views.Cli
