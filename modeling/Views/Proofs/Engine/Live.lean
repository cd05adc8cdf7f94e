import Views.Proofs.Engine.Alone
import Views.Proofs.Engine.Tasks
import Views.Proofs.History

/-!
# Histories with caching

What stays through a history of renders, one after the other, and changes of the files
(`Engine.live`), if there is caching: the stores are sane (`Sane.live`), and a slot of the cache
that holds something holds it for good (`slots_live`). Only a render of a name makes an entry for it
(`entry_live`).
-/

set_option autoImplicit false

namespace Views

namespace Slot

variable {c : Cache} {slot : Slot} {x : slot.Content}

theorem get?_insert (name : String) (entry : CacheEntry) (hne : slot ≠ .entry name) :
    slot.get? (c.insert name entry) = slot.get? c := by
  cases slot with
  | byDefault => exact Cache.defaultLayout?_insert ..
  | entry other =>
    show (c.insert name entry).get? other = c.get? other
    cases hon : c.enabled with
    | false => rw [Cache.insert, if_neg (by simp [hon])]
    | true => rw [Cache.get?_insert _ _ _ _ hon, if_neg fun he : name = other => hne (he ▸ rfl)]

theorem get?_setDefaultLayout (t : Compiled) (hne : slot ≠ .byDefault) :
    slot.get? (c.setDefaultLayout t) = slot.get? c := by
  cases slot with
  | byDefault => exact absurd rfl hne
  | entry name => exact Cache.get?_setDefaultLayout ..

end Slot

namespace Engine

variable {e : Engine} {w u v : World} {name : String} {locals : Fields} {made : List Compiled}

/-! ## One render -/

/-- Looking for an entry changes only the slot of the entry, and only if that is empty. -/
theorem Entered.slot_eq {r : Except ViewError CacheEntry} (h : e.Entered name locals w r v made)
    (slot : Slot) : slot.get? v.cache = slot.get? w.cache ∨
      slot = .entry name ∧ w.cache.get? name = none := by
  obtain ⟨x, hx, rfl | ⟨hmiss, entry, rfl⟩⟩ := h.leaves
  · exact .inl (by rw [hx.cache])
  · by_cases hs : slot = .entry name
    · exact .inr ⟨hs, hmiss⟩
    · exact .inl ((Slot.get?_insert name entry hs).trans (by rw [hx.cache]))

theorem Defaulted.slot_eq {r : Option Compiled} (h : e.Defaulted w r v made) (slot : Slot) :
    slot.get? v.cache = slot.get? w.cache ∨ slot = .byDefault ∧ w.cache.defaultLayout? = none := by
  cases h with
  | kept h => exact .inl rfl
  | failed hmiss h hv => exact .inl (by rw [hv.cache])
  | stored hmiss h ht hv =>
    by_cases hs : slot = .byDefault
    · exact .inr ⟨hs, hmiss⟩
    · exact .inl ((Slot.get?_setDefaultLayout _ hs).trans (by rw [hv.cache]))

/-- A render changes only the slot of its entry and the one of the default layout, and only if they
are empty. -/
theorem Prepares.slot_eq {p : Except ViewError Prepared} (h : e.Prepares name locals w p v made)
    (slot : Slot) : slot.get? v.cache = slot.get? w.cache ∨
      slot.get? w.cache = none ∧ (slot = .entry name ∨ slot = .byDefault) := by
  have hentered {u v : World} {r : Except ViewError CacheEntry} {made : List Compiled}
      (hu : e.Readied name w u) (h : e.Entered name locals u r v made) :
      slot.get? v.cache = slot.get? w.cache ∨ slot.get? w.cache = none ∧ slot = .entry name := by
    rw [← hu.cache]
    rcases h.slot_eq slot with hs | ⟨rfl, hmiss⟩
    · exact .inl hs
    · exact .inr ⟨hmiss, rfl⟩
  cases h with
  | missing hf => exact .inl rfl
  | failed hu h => exact (hentered hu h).imp_right fun ⟨hn, hs⟩ => ⟨hn, .inl hs⟩
  | entered hu h hl => exact (hentered hu h).imp_right fun ⟨hn, hs⟩ => ⟨hn, .inl hs⟩
  | defaulted hu h hnone hl =>
    rcases hentered hu h with hs | ⟨hn, hs⟩
    · rw [← hs]
      rcases hl.slot_eq slot with hs' | ⟨rfl, hmiss⟩
      · exact .inl hs'
      · exact .inr ⟨hmiss, .inr rfl⟩
    · exact .inr ⟨hn, .inl hs⟩

/-! ## Histories -/

/-- A program that keeps to the rule keeps the stores sane. -/
theorem Orderly.run_sane {α : Type} {X : List Step → Compiled → Fields → Scope → Prop}
    {Q : α → List Step → Prop} {p : Program α} {past : List Step} (h : e.Orderly X Q p past)
    (hw : e.Sane w) : e.Sane (p.run w).world := by
  induction p generalizing w past with
  | done a => exact hw
  | ask r next ih => exact ih _ (h.2 _ (hw.answers r)) (hw.perform h.1)

theorem Sane.answer (h : e.Sane w) (q : Query) : e.Sane ((e.answer q).run w).world :=
  (show e.Orderly (e.Owes q) (fun _ _ => True) (e.answer q) [] from answer_orderly q).run_sane h

theorem Sane.live (h : e.Sane w) (history : List Event) : e.Sane (e.live history w) := by
  induction history generalizing w with
  | nil => exact h
  | cons event rest ih =>
    cases event with
    | render q => exact ih (h.answer q)
    | change files => exact ih ⟨h.enabled, h.paths⟩

section

variable (hv : e.config.viewPath ≠ "") (hon : e.config.caching = true)
include hv hon

theorem slot_answer (h : e.Sane w) (q : Query) (slot : Slot) :
    slot.get? ((e.answer q).run w).world.cache = slot.get? w.cache ∨
      slot.get? w.cache = none ∧ (slot = .entry q.logical ∨ slot = .byDefault) := by
  obtain ⟨p, hp, -⟩ := answer_alone hv hon h.paths q
  exact hp.slot_eq slot

/-- **A slot that holds something holds it for good**, if renders come one after the other. -/
theorem slots_live (h : e.Sane w) (history : List Event) {slot : Slot} {x : slot.Content}
    (hx : slot.get? w.cache = some x) : slot.get? (e.live history w).cache = some x := by
  induction history generalizing w with
  | nil => exact hx
  | cons event rest ih =>
    cases event with
    | change files => exact ih ⟨h.enabled, h.paths⟩ hx
    | render q =>
      refine ih (h.answer q) ?_
      rcases slot_answer hv hon h q slot with hs | ⟨hn, -⟩
      · rw [hs, hx]
      · cases hn.symm.trans hx

/-- A name that is not rendered gets no entry. -/
theorem entry_live (h : e.Sane w) {history : List Event} {name : String}
    (hother : ∀ q, .render q ∈ history → q.logical ≠ name) (hnone : w.cache.get? name = none) :
    (e.live history w).cache.get? name = none := by
  induction history generalizing w with
  | nil => exact hnone
  | cons event rest ih =>
    have hrest (q : Query) (hq : .render q ∈ rest) := hother q (List.mem_cons_of_mem _ hq)
    cases event with
    | change files => exact ih ⟨h.enabled, h.paths⟩ hrest hnone
    | render q =>
      refine ih (h.answer q) hrest ?_
      rcases slot_answer hv hon h q (.entry name) with hs | ⟨-, hs | hs⟩
      · exact Eq.trans hs hnone
      · exact absurd (Slot.entry.inj hs).symm (hother q List.mem_cons_self)
      · cases hs

end

end Engine

end Views
