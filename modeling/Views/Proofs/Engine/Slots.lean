import Views.Proofs.Engine.Warrant

/-!
# The slots of the cache

The cache has a slot for each name of a view and one for the default layout (`Slot`). What a slot
holds changes only when something else is stored there (`Slot.kept`), and a render stores something
only if it has found the slot empty before (`Slot.missed_of_warranted`).
-/

set_option autoImplicit false

namespace Views

/-- A place of the cache: for the entry of a name, or for the default layout. -/
inductive Slot where
  | entry (name : String)
  | byDefault

namespace Slot

/-- What a slot can hold. -/
abbrev Content : Slot → Type
  | entry _ => CacheEntry
  | byDefault => Compiled

/-- What a slot holds. -/
def get? (c : Cache) : (slot : Slot) → Option slot.Content
  | entry name => c.get? name
  | byDefault => c.defaultLayout?

/-- The templates in a slot. -/
def templates : (slot : Slot) → slot.Content → List Compiled
  | entry _, x => x.template :: x.layout.toList
  | byDefault, t => [t]

/-- The step of looking into a slot. -/
def recalled : (slot : Slot) → Option slot.Content → Step
  | entry name, found => ⟨.recallEntry name, found⟩
  | byDefault, found => ⟨.recallDefault, found⟩

/-- The step of storing something in a slot. -/
def stored : (slot : Slot) → slot.Content → Step
  | entry name, x => ⟨.storeEntry name x, ()⟩
  | byDefault, t => ⟨.storeDefault t, ()⟩

@[simp] theorem get?_empty (slot : Slot) (enabled : Bool) :
    slot.get? (Cache.empty enabled) = none := by
  cases slot <;> cases enabled <;> rfl

theorem found_eq {α : Type} {s s' : Sharing α} {log : List Happening} {i : Nat} {slot : Slot}
    {found : Option slot.Content} (h : s.Trace (.answered i (slot.recalled found) :: log) s') :
    found = slot.get? s.world.cache := by
  cases slot with
  | entry name =>
    obtain ⟨-, -, -, hfound, -⟩ := h.asked
    exact hfound
  | byDefault =>
    obtain ⟨-, -, -, hfound, -⟩ := h.asked
    exact hfound

/-- One step leaves what a slot holds, or stores something else there. -/
theorem get?_perform (slot : Slot) (w : World) (r : Request) :
    slot.get? (w.perform r).2.cache = slot.get? w.cache ∨
      ∃ x, (⟨r, (w.perform r).1⟩ : Step) = slot.stored x ∧
        slot.get? (w.perform r).2.cache = some x := by
  rw [World.perform_world]
  cases r with
  | storeEntry other y =>
    show slot.get? (w.cache.insert other y) = _ ∨ ∃ x, _ ∧ slot.get? (w.cache.insert other y) = _
    cases slot with
    | byDefault => exact .inl (Cache.defaultLayout?_insert ..)
    | entry name =>
      by_cases hn : other = name
      · subst hn
        -- Without caching the step stores nothing.
        cases hon : w.cache.enabled with
        | true => exact .inr ⟨y, rfl, (Cache.get?_insert _ _ _ _ hon).trans (if_pos rfl)⟩
        | false => exact .inl (by rw [Cache.insert, if_neg (by simp [hon])])
      · cases hon : w.cache.enabled with
        | true => exact .inl ((Cache.get?_insert _ _ _ _ hon).trans (if_neg hn))
        | false => exact .inl (by rw [Cache.insert, if_neg (by simp [hon])])
  | storeDefault t =>
    show slot.get? (w.cache.setDefaultLayout t) = _ ∨
      ∃ x, _ ∧ slot.get? (w.cache.setDefaultLayout t) = _
    cases slot with
    | entry name => exact .inl (Cache.get?_setDefaultLayout ..)
    | byDefault =>
      cases hon : w.cache.enabled with
      | true => exact .inr ⟨t, rfl, (Cache.defaultLayout?_setDefaultLayout ..).trans (if_pos hon)⟩
      | false => exact .inl (by rw [Cache.setDefaultLayout, if_neg (by simp [hon])])
  | _ => exact .inl rfl

/-- **What a slot holds stays** until something else is stored there. -/
theorem kept {α : Type} {s s' : Sharing α} {log : List Happening} {slot : Slot} {x : slot.Content}
    (h : s.Trace log s') (hx : slot.get? s.world.cache = some x) :
    ∃ x', slot.get? s'.world.cache = some x' ∧
      (x' = x ∨ ∃ i, .answered i (slot.stored x') ∈ log) := by
  induction h with
  | start => exact ⟨x, hx, .inl rfl⟩
  | next _ hn ih =>
    obtain ⟨y, hy, hor⟩ := ih
    cases hn with
    | @answer w ps i r next hi =>
      rcases slot.get?_perform w r with hsame | ⟨z, hstored, hz⟩
      · exact ⟨y, hsame.trans hy, hor.imp_right fun ⟨j, hj⟩ => ⟨j, List.mem_append_left _ hj⟩⟩
      · exact ⟨z, hz, .inr ⟨i, List.mem_append_right _ (hstored ▸ List.mem_singleton_self _)⟩⟩
    | edit files => exact ⟨y, hy, hor.imp_right fun ⟨j, hj⟩ => ⟨j, List.mem_append_left _ hj⟩⟩

/-- A render stores only where it has found nothing. -/
theorem missed_of_warranted {e : Engine} {X : List Step → Compiled → Fields → Scope → Prop}
    {past : List Step} {slot : Slot} {x : slot.Content}
    (h : e.Warranted X past (slot.stored x).1) : slot.recalled none ∈ past := by
  cases slot <;> exact h.1

end Slot

end Views
