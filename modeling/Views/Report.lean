import Views.Text.Aligned

/-!
# Reports

An error that ends a command is reported as a chain of texts, from what was attempted to its root
cause. A single cause is indented; several are numbered.
-/

set_option autoImplicit false

namespace Views

/-- A chain of texts, each explained by the next one. -/
structure Report where
  message : String
  causes : List String
  deriving DecidableEq

namespace Report

/-- A report without a cause. -/
def of (message : String) : Report := ⟨message, []⟩

/-- A report explained by another one. -/
def context (message : String) (r : Report) : Report := ⟨message, r.message :: r.causes⟩

/-- All texts of a report. -/
def chain (r : Report) : List String := r.message :: r.causes

/-- Indents the lines of a text that are not empty; the first line is left alone. -/
def indentRest (indent : List Char) : List Char → List Char
  | [] => []
  | '\n' :: rest =>
    match rest with
    | [] => ['\n']
    | '\n' :: _ => '\n' :: indentRest indent rest
    | _ => '\n' :: (indent ++ indentRest indent rest)
  | c :: rest => c :: indentRest indent rest

/-- The texts of the causes, below their heading. -/
def causesText : List String → String
  | [] => ""
  | [cause] =>
    "\n\nCaused by:\n" ++ (if cause.startsWith "\n" || cause == "" then "" else "    ") ++
      String.ofList (indentRest (List.replicate Text.margin ' ') cause.toList)
  | causes =>
    "\n\nCaused by:" ++ String.join (causes.zipIdx.map fun (cause, n) =>
      "\n" ++ Text.aligned n ++ ": " ++
        String.ofList (indentRest (List.replicate (Text.margin + 2) ' ') cause.toList))

/-- The text that a command ends with. -/
def text (r : Report) : String := "Error: " ++ r.message ++ causesText r.causes

end Report

end Views
