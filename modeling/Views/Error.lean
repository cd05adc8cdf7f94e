import Views.Files.Fault
import Views.Report

/-!
# Errors of a render

The ways in which configuring an engine or rendering a view can fail, and their texts.
-/

set_option autoImplicit false

namespace Views

/-- Why an engine could not be configured or a view could not be rendered. -/
inductive ViewError where
  | badOptions (message option : String)
  | missingTemplate (path : String)
  | io (path : String) (cause : Files.Fault)
  | compile (name message : String)
  | execute (name message : String)
  | layoutUnavailable (template : String)
  | notAttached
  deriving DecidableEq

namespace ViewError

/-- The text of an error. -/
def message : ViewError → String
  | badOptions message option => message ++ " (option: " ++ option ++ ")"
  | missingTemplate path => "The template specified does not exist: " ++ path
  | io path cause => "Failed to read " ++ path ++ ": " ++ cause.message
  | compile name message => "Failed to compile template " ++ name ++ ": " ++ message
  | execute name message => "Failed to execute template " ++ name ++ ": " ++ message
  | layoutUnavailable template => "No layout available for template " ++ template
  | notAttached => "No view engine attached to this context"

/-- Whether the view does not exist. -/
def isMissingTemplate : ViewError → Bool
  | missingTemplate _ => true
  | _ => false

/-- The path that was tried, if the error is about one. -/
def attemptedPath? : ViewError → Option String
  | missingTemplate path => some path
  | io path _ => some path
  | _ => none

/-- The fault behind the error. -/
def cause? : ViewError → Option Files.Fault
  | io _ cause => some cause
  | _ => none

/-- An error as a report, with the fault behind it. -/
def report (e : ViewError) : Report :=
  ⟨e.message, match e.cause? with
    | some fault => fault.chain
    | none => []⟩

end ViewError

end Views
