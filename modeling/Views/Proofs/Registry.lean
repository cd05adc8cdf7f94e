import Views.Proofs.Table
import Views.Registry

/-!
# Registries

What it is for a registry to hold a text under a key, and for two registries to differ in nothing
but their templates.
-/

set_option autoImplicit false

namespace Views

namespace Registry

/-- Stores a template under a name. -/
def define (r : Registry) (name : String) (t : Template) : Registry :=
  { r with templates := r.templates.insert name t }

/-- The template that a text compiles to is registered under a key. -/
def Holds (r : Registry) (key text : String) : Prop :=
  ∃ elements, Template.elementsOf text false = .ok elements ∧
    r.templates.get? key = some (.mk (some key) elements)

/-- Registries with the same helpers that write values in the same way. -/
structure Like (r r' : Registry) : Prop where
  helpers : r.helpers = r'.helpers
  strict : r.strict = r'.strict
  escaping : r.escaping = r'.escaping

theorem Holds.define {r : Registry} {key text : String} (h : r.Holds key text) {name : String}
    {t : Template} (hn : name = key → r.templates.get? key = some t) :
    (r.define name t).Holds key text := by
  obtain ⟨elements, hc, hg⟩ := h
  refine ⟨elements, hc, ?_⟩
  by_cases he : name = key
  · rw [Registry.define, Table.get?_insert, if_pos he, ← hn he, hg]
  · rw [Registry.define, Table.get?_insert_ne _ _ he, hg]

end Registry

end Views
