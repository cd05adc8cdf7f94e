import Views.Cache
import Views.Error
import Views.Evaluation.Render

/-!
# Compiling and executing templates

The registry as the engine uses it: a compiled template is a handle on its key, and errors carry the
name of their template.
-/

set_option autoImplicit false

namespace Views.Registry

/-- Compiles a text under a key. -/
def compile (r : Registry) (key source : String) : Except ViewError (Compiled × Registry) :=
  match r.register key source false with
  | .ok r => .ok (⟨key, key⟩, r)
  | .error e => .error (.compile key (e.message key))

/-- Registers a partial under a name. -/
def registerPartial (r : Registry) (name source : String) : Except ViewError Registry :=
  match r.register name source true with
  | .ok r => .ok r
  | .error e => .error (.compile name (e.message name))

/-- Executes a compiled template with some data. -/
def execute (r : Registry) (template : Compiled) (locals : Value) (scope : Scope) :
    Except ViewError String × Scope :=
  let (result, scope) := r.render template.key locals scope
  (result.mapError fun e => .execute template.name e.message, scope)

end Views.Registry
