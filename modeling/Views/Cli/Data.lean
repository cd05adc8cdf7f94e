import Views.Json.Reader
import Views.Json.Writer
import Views.Report

/-!
# Data on the command line

Arguments that carry data are JSON texts; variables and state have to be objects.
-/

set_option autoImplicit false

namespace Views.Cli

/-- Reads the JSON text of the option `--what`. -/
def readJson (text what : String) : Except Report Value :=
  match Json.read? text with
  | some v => .ok v
  | none => .error (.of ("Failed to parse --" ++ what ++ " as JSON"))

/-- Reads the object of the option `--what`; an absent option is the empty object. -/
def readObject (text? : Option String) (what : String) : Except Report Fields :=
  match text? with
  | none => .ok []
  | some text => do
    match ← readJson text what with
    | .object fields => .ok fields
    | other => .error (.of ("--" ++ what ++ " must be a JSON object, got " ++ Json.write other))

end Views.Cli
