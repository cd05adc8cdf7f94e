import Views.Value

/-!
# Content blocks of a render

A render owns one scope. Its view captures fragments of text into named blocks; its layout consumes
a block, which joins the fragments and empties it. The scope also carries the data of the request
for helpers, and that never changes.

What a scope holds is seen through `fragments`: `append` adds one at the end of a block, `consume`
empties one block, and `pending` names the blocks that are not empty.
-/

set_option autoImplicit false

namespace Views

/-- The blocks captured during one render, and the data of its request. -/
structure Scope where
  blocks : Table (List String)
  data : Fields

namespace Scope

/-- No block captured. -/
def withData (data : Fields) : Scope := ⟨[], data⟩

/-- The fragments of a block, oldest first. -/
def fragments (s : Scope) (name : String) : List String := (s.blocks.get? name).getD []

/-- Adds a fragment at the end of a block. -/
def append (s : Scope) (name fragment : String) : Scope :=
  { s with blocks := s.blocks.insert name (s.fragments name ++ [fragment]) }

/-- The fragments of a block on lines of their own. -/
def joined (s : Scope) (name : String) : String := "\n".intercalate (s.fragments name)

/-- Joins the fragments of a block and empties it. -/
def consume (s : Scope) (name : String) : String × Scope :=
  (s.joined name, { s with blocks := s.blocks.insert name [] })

/-- The names of the blocks that hold a fragment, in increasing order. -/
def pending (s : Scope) : List String :=
  Table.keys (s.blocks.filter fun block => !block.2.isEmpty)

/-! ## What an operation does to the blocks -/

@[simp] theorem fragments_withData (data : Fields) (name : String) :
    (withData data).fragments name = [] := rfl

theorem fragments_append (s : Scope) (name fragment other : String) :
    (s.append name fragment).fragments other =
      if name = other then s.fragments name ++ [fragment] else s.fragments other := by
  by_cases h : name = other <;> simp [append, fragments, Table.get?_insert, h]

theorem fragments_consume (s : Scope) (name other : String) :
    (s.consume name).2.fragments other = if name = other then [] else s.fragments other := by
  by_cases h : name = other <;> simp [consume, fragments, Table.get?_insert, h]

@[simp] theorem data_append (s : Scope) (name fragment : String) :
    (s.append name fragment).data = s.data := rfl

@[simp] theorem data_consume (s : Scope) (name : String) : (s.consume name).2.data = s.data := rfl

end Scope

end Views
