import Views.Table

/-!
# The cache of compiled views

A compiled template is known by the key it is registered under. The cache keeps, for the name of a
view, its compiled template and the layout chosen for it, and one slot for the default layout. A
disabled cache stores nothing, so every look-up misses.
-/

set_option autoImplicit false

namespace Views

/-- A handle on a registered template: its key, and the name shown in errors. -/
structure Compiled where
  key : String
  name : String
  deriving DecidableEq

/-- A compiled view and the layout chosen for it; without one, the default layout is used. -/
structure CacheEntry where
  template : Compiled
  layout : Option Compiled
  deriving DecidableEq

/-- The compiled views by name and the default layout. -/
structure Cache where
  enabled : Bool
  entries : Table CacheEntry
  defaultLayout : Option Compiled

namespace Cache

/-- A cache that holds nothing. -/
def empty (enabled : Bool) : Cache := ⟨enabled, [], none⟩

/-- The entry of a view. -/
def get? (c : Cache) (name : String) : Option CacheEntry :=
  if c.enabled then c.entries.get? name else none

/-- Stores the entry of a view. -/
def insert (c : Cache) (name : String) (entry : CacheEntry) : Cache :=
  if c.enabled then { c with entries := c.entries.insert name entry } else c

/-- The default layout, if it was stored. -/
def defaultLayout? (c : Cache) : Option Compiled := if c.enabled then c.defaultLayout else none

/-- Stores the default layout. -/
def setDefaultLayout (c : Cache) (layout : Compiled) : Cache :=
  if c.enabled then { c with defaultLayout := some layout } else c

/-! ## Look-ups -/

@[simp] theorem enabled_insert (c : Cache) (name : String) (entry : CacheEntry) :
    (c.insert name entry).enabled = c.enabled := by
  unfold insert; split <;> rfl

@[simp] theorem enabled_setDefaultLayout (c : Cache) (layout : Compiled) :
    (c.setDefaultLayout layout).enabled = c.enabled := by
  unfold setDefaultLayout; split <;> rfl

theorem get?_insert (c : Cache) (name other : String) (entry : CacheEntry) (h : c.enabled = true) :
    (c.insert name entry).get? other = if name = other then some entry else c.get? other := by
  simp [insert, get?, h, Table.get?_insert]

@[simp] theorem get?_setDefaultLayout (c : Cache) (layout : Compiled) (name : String) :
    (c.setDefaultLayout layout).get? name = c.get? name := by
  unfold setDefaultLayout get?; split <;> rfl

@[simp] theorem defaultLayout?_insert (c : Cache) (name : String) (entry : CacheEntry) :
    (c.insert name entry).defaultLayout? = c.defaultLayout? := by
  unfold insert defaultLayout?; split <;> rfl

theorem defaultLayout?_setDefaultLayout (c : Cache) (layout : Compiled) :
    (c.setDefaultLayout layout).defaultLayout? = if c.enabled then some layout else none := by
  cases h : c.enabled <;> simp [setDefaultLayout, defaultLayout?, h]

theorem get?_of_disabled (c : Cache) (name : String) (h : c.enabled = false) :
    c.get? name = none := by
  simp [get?, h]

theorem isSome_get?_insert {c : Cache} {name other : String} {entry : CacheEntry}
    (h : (c.get? other).isSome = true) : ((c.insert name entry).get? other).isSome = true := by
  cases hon : c.enabled with
  | false => rw [get?_of_disabled _ _ hon] at h; cases h
  | true => rw [get?_insert _ _ _ _ hon]; split <;> simp [h]

end Cache

end Views
