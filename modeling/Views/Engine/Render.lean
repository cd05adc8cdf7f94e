import Views.Config.Basic
import Views.Engine.Partials
import Views.Engine.Resolver
import Views.Locals
import Views.Markers

/-!
# The engine

`Engine.renderView` renders a view in two parts. `Engine.prepare` resolves the name, sees to the
partials, and takes the compiled view and its layout from the cache or compiles them;
`Engine.finish` executes the view and then the layout around it. The layout is chosen by the
variable `layout`, by a marker in the text of the view, or by the configuration.
-/

set_option autoImplicit false

namespace Views

/-- An engine: a configuration that has been checked when the engine was built. -/
structure Engine where
  config : Config

namespace Engine

/-- Builds an engine on a registry, which gets the helpers for content blocks. -/
def build (config : Config) (registry : Registry) : Except ViewError (Engine × Registry) := do
  config.validate
  pure (⟨config⟩, registry.withBlockHelpers config.blockHelperName config.contentHelperName)

/-- A registry for the options of a configuration. -/
def freshRegistry (options : TemplateOptions) : Registry :=
  Registry.new options.strictMode (!options.noEscape)

variable (e : Engine)

/-- How the engine resolves names. -/
def resolver : Resolver :=
  ⟨e.config.viewPath, e.config.layoutsDir, e.config.extname, e.config.caching⟩

/-- Where the engine finds partials. -/
def partials : PartialSource := ⟨e.config.partialsPath, e.config.extname⟩

/-! ## Compiling -/

/-- The kinds of files that the engine compiles. -/
inductive FileKind where
  | view
  | layout
  deriving DecidableEq

/-- The word for a kind of file in a key. -/
def FileKind.word : FileKind → String
  | view => "view"
  | layout => "layout"

/-- The key of a compiled file; with a number, every compilation has its own. -/
def keyOf (kind : FileKind) (path : String) (number : Option Nat) : String :=
  kind.word ++ "::" ++ path ++
    match number with
    | some n => "#" ++ toString n
    | none => ""

/-- The key under which a file is compiled next. -/
def compileKey (kind : FileKind) (path : String) : Program String := do
  if e.config.caching then
    let n ← Program.request .nextNumber
    return keyOf kind path (some n)
  else return keyOf kind path none

/-- The key of the layout that writes the body alone. -/
def identityKey : String := "layout::@identity"

/-- The text of the layout that writes the body alone. -/
def identitySource : String := "\x7b\x7b\x7bbody\x7d\x7d\x7d"

/-- Compiles the layout that writes the body alone. -/
def identityLayout : Attempt Compiled :=
  Attempt.of (Program.request (.compile identityKey identitySource))

/-- Registers the partials that a text refers to, if there is no caching. -/
def registerReferenced (source : String) : Program Unit := do
  if e.config.caching then return ()
  else if e.partials.enabled then
    match Markers.partialNames source with
    | [] => return ()
    | names =>
      let _ ← e.partials.registerNamed names
      return ()

/-- Reads and compiles a file. -/
def loadFile (kind : FileKind) (path : String) : Attempt (Compiled × String) := do
  let source ← Attempt.of (Program.request (.read path))
  e.registerReferenced source
  let key ← e.compileKey kind path
  let template ← Attempt.of (Program.request (.compile key source))
  return (template, source)

/-- Reads and compiles a layout. -/
def loadLayout (name : String) : Attempt Compiled := do
  let (layout, _) ← e.loadFile .layout (e.resolver.layoutPath name)
  return layout

/-! ## Choosing a layout -/

/-- What a render says about its layout. -/
inductive LayoutChoice where
  /-- The body alone. -/
  | identity
  | named (name : String)
  /-- The layout of the configuration. -/
  | byDefault
  deriving DecidableEq

/-- The layout that the variables and the text of a view choose. -/
def chooseLayout (locals : Fields) (source : String) : LayoutChoice :=
  let marked := match Markers.layoutName? source with
    | some name => .named name
    | none => .byDefault
  match Table.get? locals "layout" with
  | some (.bool false) => .identity
  | some (.string name) => .named name
  | _ => marked

/-- Compiles the layout of a choice; the default layout is not compiled here. -/
def layoutFor (choice : LayoutChoice) : Attempt (Option Compiled) :=
  match choice with
  | .identity => some <$> identityLayout
  | .named name => some <$> e.loadLayout name
  | .byDefault => pure none

/-- The default layout, compiled at most once if there is caching; none if that fails. -/
def defaultLayout : Program (Option Compiled) := do
  match ← Program.request .recallDefault with
  | some layout => return some layout
  | none =>
    let load : Attempt Compiled := match e.config.defaultLayoutName? with
      | some name => e.loadLayout name
      | none => identityLayout
    match ← load.run with
    | .ok layout =>
      Program.request (.storeDefault layout)
      return some layout
    | .error _ => return none

/-! ## Rendering -/

/-- The compiled view of a name and its layout, from the cache or from the file. -/
def entryFor (name path : String) (locals : Fields) : Attempt CacheEntry := do
  match ← (Program.request (.recallEntry name) : Program _) with
  | some entry => return entry
  | none =>
    let (template, source) ← e.loadFile .view path
    let layout ← e.layoutFor (chooseLayout locals source)
    let entry : CacheEntry := ⟨template, layout⟩
    (Program.request (.storeEntry name entry) : Program _)
    return entry

/-- The data that helpers see during a render. -/
def scopeData (request : Value) : Fields :=
  Table.insert e.config.templateOptions.data e.config.hostKey request

/-- The name of a view below the directory of the theme. -/
def logicalName (state : Fields) (name : String) : String :=
  if Files.isAbsolute name then name else themeDirectory state ++ name

/-- Executes a compiled template. -/
def execute (template : Compiled) (locals : Fields) (scope : Scope) : Attempt (String × Scope) := do
  let (result, scope) ← (Program.request (.execute template locals scope) : Program _)
  let out ← Attempt.of (pure result)
  return (out, scope)

/-- What a render executes: its view and the layout around it, if that could be loaded. -/
structure Prepared where
  view : Compiled
  layout : Option Compiled
  deriving DecidableEq

/-- Sees to everything that a render executes. -/
def prepare (logical : String) (merged : Fields) : Attempt Prepared := do
  let some path ← (e.resolver.resolve logical : Program _)
    | throw (.missingTemplate (e.resolver.templatePath logical))
  e.partials.ensureScanned
  let entry ← e.entryFor logical path merged
  let layout ← (match entry.layout with
    | some layout => pure (some layout)
    | none => e.defaultLayout : Program _)
  return ⟨entry.template, layout⟩

/-- Executes the view, and the layout around what it gives. -/
def finish (logical : String) (merged : Fields) (request : Value) (prepared : Prepared) :
    Attempt String := do
  let (body, scope) ← execute prepared.view merged (Scope.withData (e.scopeData request))
  let some layout := prepared.layout | throw (.layoutUnavailable logical)
  let (output, _) ← execute layout (Table.insert merged "body" (.string body)) scope
  return output

/-- Renders a view. -/
def renderView (state : Fields) (request : Value) (name : String) (locals : Fields) :
    Attempt String := do
  let logical := logicalName state name
  let merged := mergeLocals e.config.locals state locals
  let prepared ← e.prepare logical merged
  e.finish logical merged request prepared

end Engine

end Views
