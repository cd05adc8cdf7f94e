import Views.Value

/-!
# Variables of a render

The variables of a render come in three layers: the defaults of the engine, the state of the
request, and the variables of the call. A later layer wins. The state also selects a theme, a
directory below the views.
-/

set_option autoImplicit false

namespace Views

/-- The three layers as one, later layers over earlier ones. -/
def mergeLocals (defaults state locals : Fields) : Fields :=
  (Table.union defaults state).union locals

/-- What a theme puts in front of a view's name: its directory and a slash. -/
def themeDirectory (state : Fields) : String :=
  match Table.get? state "theme" with
  | some (.string theme) => if theme = "" then "" else theme ++ "/"
  | _ => ""

end Views
