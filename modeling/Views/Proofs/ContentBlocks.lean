import Views.Compiler
import Views.Proofs.Evaluation.Calls

/-!
# Content blocks of a view and its layout

A view and a layout are executed one after the other on one scope. Each execution has an account of
what its calls of the two helpers did, in the order in which they were completed: what a call
captured is one fragment, and what a call emits are the fragments that wait for its block. A
`RoundTrip` is such an account with the laws of the calls that it stands on, and the account of the
layout goes on where that of the view ends (`Registry.content_blocks`).
-/

set_option autoImplicit false

namespace Views

open Evaluation

namespace Registry

variable {r : Registry} {template : Compiled} {locals : Value} {scope : Scope}
  {log log' : List BlockEvent}

/-- The execution of a template has an account that extends `log` to `log'`. -/
def Recounts (r : Registry) (template : Compiled) (locals : Value) (scope : Scope)
    (log log' : List BlockEvent) : Prop :=
  ∃ t x, r.templates.get? template.key = some t ∧
    Account ⟨r, locals⟩ log (renderNested ⟨r, locals⟩ maxNesting t) (State.start scope locals)
      log' x ∧
    r.execute template locals scope =
      ((x.1.map fun _ => x.2.out).mapError fun e => .execute template.name e.message, x.2.scope)

/-- The log goes on telling what the blocks of the scope hold. -/
theorem Recounts.fragments (h : r.Recounts template locals scope log log')
    (hlog : ∀ name, scope.fragments name = waiting log name) (name : String) :
    (r.execute template locals scope).2.fragments name = waiting log' name := by
  obtain ⟨t, x, -, hx, hdone⟩ := h
  rw [hdone]
  exact (hx.right hlog).2 name

/-- The execution of a template comes to an evaluation, with a log and in a state. -/
def Reaches (r : Registry) (template : Compiled) (locals : Value) (scope : Scope)
    (log : List BlockEvent) (call : Render Unit) (log' : List BlockEvent) (t : State) : Prop :=
  ∃ tree, r.templates.get? template.key = some tree ∧
    Reached ⟨r, locals⟩ call log' t log (renderNested ⟨r, locals⟩ maxNesting tree)
      (State.start scope locals)

end Registry

end Views
