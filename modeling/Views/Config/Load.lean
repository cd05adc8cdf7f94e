import Views.Config.Yaml
import Views.Files.Operation
import Views.Report

/-!
# Loading configurations

A configuration is loaded from a given file, or from the first candidate that is there and can be
loaded; without one, the defaults apply.
-/

set_option autoImplicit false

namespace Views.Config

open Files (FileSystem SystemFault)

/-- The name of a configuration file. -/
def fileName : String := "hbsview.yml"

/-- The directory of a program's files below a directory of the user. -/
def ownDirectory (base : String) : String := Files.join base "hbsview"

/-- Reads a configuration, given the text of a file or why there is none. -/
def ofFile (read : Except SystemFault String) : Except Report Config :=
  match read with
  | .error fault => .error (.context "Failed to read config file" (.of fault.message))
  | .ok text =>
    match ofYaml? text with
    | some config => .ok config
    | none => .error (.of "Failed to parse config file")

/-- The files that are looked at when none is given: one in the working directory, and one in the
user's directory of configurations, if there is such a directory. -/
def candidates (configHome : Option String) : List String :=
  fileName :: (configHome.map fun home => Files.join (ownDirectory home) fileName).toList

variable {m : Type → Type} [Monad m] (fs : FileSystem m)

/-- The configuration of the first candidate that is there and can be loaded. -/
def loadFirst : List String → m Config
  | [] => return {}
  | path :: rest => do
    if ← fs (.probe path) then
      match ofFile (← fs (.read path)) with
      | .ok config => return config
      | .error _ => loadFirst rest
    else loadFirst rest

/-- Loads the configuration of a given path, or else of a candidate. -/
def load (path : Option String) (configHome : Option String) : m (Except Report Config) := do
  match path with
  | some path =>
    let read ← fs (.read path)
    return (ofFile read).mapError fun r => .context ("Failed to load config from " ++ path) r
  | none => return .ok (← loadFirst fs (candidates configHome))

end Views.Config
