import Views.Scope

/-!
# Shared scopes

A scope is used through handles. A clone of a handle shares the blocks of its family, so what is
appended through one member can be consumed through another; a fresh handle starts a family of its
own.
-/

set_option autoImplicit false

namespace Views.Scope

/-- The scopes in use, one per family, and the family of each handle. -/
structure Handles where
  families : List Scope
  handles : List Nat

namespace Handles

/-- The scope behind a handle. -/
def scope? (t : Handles) (handle : Nat) : Option Scope :=
  (t.handles[handle]?).bind fun family => t.families[family]?

/-- Starts a family and gives its first handle. -/
def fresh (t : Handles) (data : Fields) : Nat × Handles :=
  (t.handles.length, ⟨t.families ++ [withData data], t.handles ++ [t.families.length]⟩)

/-- One more handle of the same family. -/
def clone (t : Handles) (handle : Nat) : Nat × Handles :=
  match t.handles[handle]? with
  | some family => (t.handles.length, { t with handles := t.handles ++ [family] })
  | none => (t.handles.length, t)

/-- Changes the scope behind a handle. -/
def modify (t : Handles) (handle : Nat) (change : Scope → Scope) : Handles :=
  match t.handles[handle]? with
  | some family => { t with families := t.families.modify family change }
  | none => t

/-- Appends a fragment through a handle. -/
def append (t : Handles) (handle : Nat) (name fragment : String) : Handles :=
  t.modify handle (·.append name fragment)

/-- Consumes a block through a handle. -/
def consume (t : Handles) (handle : Nat) (name : String) : String × Handles :=
  (((t.scope? handle).map (·.joined name)).getD "", t.modify handle fun s => (s.consume name).2)

/-- The pending blocks seen through a handle. -/
def pending (t : Handles) (handle : Nat) : List String :=
  ((t.scope? handle).map Scope.pending).getD []

/-- The data seen through a handle. -/
def data (t : Handles) (handle : Nat) : Fields := ((t.scope? handle).map Scope.data).getD []

/-- One family with one handle. -/
def start (data : Fields) : Handles := (Handles.mk [] []).fresh data |>.2

end Handles

end Views.Scope
