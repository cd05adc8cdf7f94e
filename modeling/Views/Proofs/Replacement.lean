import Views.Proofs.Engine.Serve
import Views.Proofs.Stability

/-!
# What stands in the cache

Looking into the cache and storing there are two requests, with other renders between them. So a
slot that holds something can only change through a render that found it empty before and is still
in flight (`slot_kept_or_replaced`).
-/

set_option autoImplicit false

namespace Views

open Engine

/-- **A slot that holds something always holds something**, and another thing only if a render
stores it that found the slot empty before and is in flight since then. With partials unlike keys
each of the templates in the slot stands as it is. -/
theorem slot_kept_or_replaced {e : Engine} {base : Registry} {files : Files.FileTree}
    {tasks : List Task} {log log' : List Happening} {m s : Sharing Task.Report}
    (hon : e.config.caching = true) (h : (e.started base files tasks).Trace log m)
    (h' : m.Trace log' s) {slot : Slot} {x : slot.Content}
    (hx : slot.get? m.world.cache = some x) :
    (∃ x', slot.get? s.world.cache = some x' ∧ (x' = x ∨ ∃ i, m.InFlight i ∧
        slot.recalled none ∈ stepsOf i log ∧ slot.stored x' ∈ stepsOf i log')) ∧
      (Apart (log ++ log') → ∀ t ∈ slot.templates x, ∃ text,
        m.world.registry.Holds t.key text ∧ s.world.registry.Holds t.key text) := by
  constructor
  · obtain ⟨x', hx', hor⟩ := Slot.kept h' hx
    refine ⟨x', hx', hor.imp_right fun ⟨i, hi⟩ => ⟨i, h'.inFlight_of_answered hi, ?_, ?_⟩⟩
    · obtain ⟨before, after, rfl⟩ := List.append_of_mem hi
      have hall := h.trans h'
      rw [← List.append_assoc] at hall
      have hmissed := Slot.missed_of_warranted (obeyed (r := (slot.stored x').1) hall)
      rw [stepsOf_append, List.mem_append] at hmissed
      refine hmissed.resolve_right fun hmissed => ?_
      -- A look-up after that moment would have found something.
      obtain ⟨first, rest, rfl⟩ := List.append_of_mem (mem_stepsOf.1 hmissed)
      rw [List.append_assoc, List.cons_append] at h'
      obtain ⟨k, hk, hk'⟩ := h'.split
      obtain ⟨y, hy, -⟩ := Slot.kept hk hx
      cases (Slot.found_eq hk').trans hy
    · exact mem_stepsOf.2 hi
  · intro hp t ht
    obtain ⟨o, text, hmade⟩ := (filled h hx).made ht
    have hbefore : Apart log := fun name hn =>
      hp name (List.filterMap_append .. ▸ List.mem_append_left _ hn)
    exact ⟨text, stands hon h hbefore hmade, stands hon (h.trans h') hp (hmade.append log')⟩

/-- The entry of a view is replaced by a render that has read the file before it changed. -/
theorem slot_replaced_by_overtaken :
    let e : Engine := ⟨{ viewPath := "views" }⟩
    let base := (freshRegistry {}).withBlockHelpers "block" "contentFor"
    let start := e.started base (oneView "old") [.render { name := "a" }, .render { name := "a" }]
    let first := start.follow [.answer 0 5, .edit (oneView "new"), .answer 1 20]
    let last := first.2.follow [.answer 0 20]
    ∃ i, first.2.InFlight i ∧ (Slot.entry "a").recalled none ∈ stepsOf i first.1 ∧
      (Slot.entry "a").stored ⟨⟨"view::views/a.hbs#1", "view::views/a.hbs#1"⟩, none⟩ ∈
        stepsOf i last.1 := by
  intro e base start first last
  have hfirst : Slot.get? first.2.world.cache (.entry "a") =
      some ⟨⟨"view::views/a.hbs#0", "view::views/a.hbs#0"⟩, none⟩ := by
    cbv
  have hlast : Slot.get? last.2.world.cache (.entry "a") =
      some ⟨⟨"view::views/a.hbs#1", "view::views/a.hbs#1"⟩, none⟩ := by
    cbv
  obtain ⟨⟨x, hx, hor⟩, -⟩ := slot_kept_or_replaced (e := e) rfl (Sharing.follow_trace _ start)
    (Sharing.follow_trace [.answer 0 20] first.2) hfirst
  obtain rfl := Option.some.inj (hlast.symm.trans hx)
  exact hor.resolve_left (by decide)

/-- A view switches back to an older text, if a render that read it is overtaken by one that reads
the new text; and a partial with the name of a key changes what a slot executes. -/
theorem slot_switches_back :
    (let e : Engine := ⟨{ viewPath := "views" }⟩
      let base := (freshRegistry {}).withBlockHelpers "block" "contentFor"
      let q : Query := { name := "a" }
      let start := e.started base (oneView "old") [.render q, .render q]
      let m := (start.follow [.answer 0 5, .edit (oneView "new"), .answer 1 20]).2
      let s := (m.follow [.answer 0 20]).2
      (∃ log log', start.Trace log m ∧ m.Trace log' s) ∧ (m.world.cache.get? "a").isSome = true ∧
        ((e.answer q).run m.world).result = .ok "new" ∧
        ((e.answer q).run s.world).result = .ok "old") ∧
    let e : Engine := ⟨{ viewPath := "views", partialsPath := "partials" }⟩
    let base := (freshRegistry {}).withBlockHelpers "block" "contentFor"
    let q : Query := { name := "a" }
    let m := ((e.answer q).run (e.world base keyedFiles)).world
    let s := ((e.answer q).run m).world
    m.cache.defaultLayout?.isSome = true ∧ m.cache.defaultLayout? = s.cache.defaultLayout? ∧
      ((e.answer q).run (e.world base keyedFiles)).result = .ok "V" ∧
      ((e.answer q).run m).result = .ok "P" := by
  refine ⟨⟨⟨_, _, Sharing.follow_trace _ _, Sharing.follow_trace _ _⟩, ?_, ?_, ?_⟩, ?_, ?_, ?_, ?_⟩
  · cbv
  · cbv
  · cbv
  · cbv
  · cbv
  · cbv
  · cbv

end Views
