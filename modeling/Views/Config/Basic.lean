import Views.Error
import Views.Files.Path
import Views.Value

/-!
# Configurations

The options of an engine, their defaults, and the check that is made before an engine is built.
-/

set_option autoImplicit false

namespace Views

/-- The options of the template compiler. -/
structure TemplateOptions where
  /-- Whether a missing value is an error. -/
  strictMode : Bool := false
  /-- Whether values are written without escaping. -/
  noEscape : Bool := false
  /-- Data that helpers see. -/
  data : Fields := []

/-- The options of an engine. -/
structure Config where
  /-- The directory of the views. -/
  viewPath : String := ""
  /-- The ending of every template file. -/
  extname : String := ".hbs"
  /-- The directory of the partials; none are registered if it is empty. -/
  partialsPath : String := ""
  /-- The directory of the layouts; that of the views if it is empty. -/
  layoutsPath : String := ""
  /-- The layout of the views that choose none. -/
  defaultLayout : Option String := none
  /-- The name of the helper that captures a content block. -/
  contentHelperName : String := "contentFor"
  /-- The name of the helper that writes a content block. -/
  blockHelperName : String := "block"
  /-- The variables of every render. -/
  locals : Fields := []
  /-- Whether every render reads and compiles its templates again. -/
  disableCache : Bool := false
  /-- The key of the request among the data that helpers see. -/
  hostKey : String := "request"
  templateOptions : TemplateOptions := {}
  /-- The level of the log of the command line. -/
  logLevel : Option String := none

namespace Config

/-- What is wrong with a configuration, if something is. -/
def validate (c : Config) : Except ViewError Unit :=
  if c.viewPath = "" then
    .error (.badOptions "The option `view-path` must be specified" "view-path")
  else if c.extname = "" then
    .error (.badOptions "The option `extname` must not be empty" "extname")
  else if c.blockHelperName = c.contentHelperName then
    .error (.badOptions "The block and content helpers must have different names"
      "block-helper-name")
  else .ok ()

/-- Whether there is a directory of partials. -/
def partialsEnabled (c : Config) : Bool := c.partialsPath != ""

/-- The directory of the layouts. -/
def layoutsDir (c : Config) : String := if c.layoutsPath = "" then c.viewPath else c.layoutsPath

/-- Whether compiled templates are kept. -/
def caching (c : Config) : Bool := !c.disableCache

/-- The name of the default layout, if one is configured. -/
def defaultLayoutName? (c : Config) : Option String := c.defaultLayout.filter (· ≠ "")

end Config

end Views
