import Views.Proofs.Engine.Numbers
import Views.Proofs.Program.Schedule

/-!
# Compiled templates stand

With caching every compilation has a key of its own, so a template that was compiled executes the
text that it was compiled from for as long as the engine lives, whatever other renders compile and
however the files change (`templates_stand`).
-/

set_option autoImplicit false

namespace Views

/-- The templates that a step hands over, from the world to a task or back. -/
def Step.templates : Step → List Compiled
  | ⟨.compile _ _, .ok t⟩ => [t]
  | ⟨.execute t _ _, _⟩ => [t]
  | ⟨.recallEntry name, some entry⟩ => Slot.templates (.entry name) entry
  | ⟨.storeEntry name entry, _⟩ => Slot.templates (.entry name) entry
  | ⟨.recallDefault, some t⟩ => [t]
  | ⟨.storeDefault t, _⟩ => [t]
  | _ => []

namespace Engine

variable {e : Engine} {base : Registry} {files : Files.FileTree} {tasks : List Task}
  {s : Sharing Task.Report} {log : List Happening} {past : List Step} {i : Nat} {t : Compiled}

/-- What is compiled was made from the text of an origin. -/
theorem MayCompile.made {key text : String} (h : e.MayCompile past key text) :
    ∃ o, e.Made (past ++ [⟨.compile key text, .ok t⟩]) o text t := by
  cases h with
  | @file o kind path n _ ho hr hn =>
    refine ⟨o, .file ho ?_ ((List.singleton_sublist.2 hr).append (List.Sublist.refl [_]))⟩
    cases n with
    | none => exact Eq.symm hn
    | some n => exact hn.1.symm
  | identity => exact ⟨.identity, .identity (List.mem_append_right _ (List.mem_singleton_self _))⟩

theorem Belongs.made {slot : Slot} {x : slot.Content} (h : e.Belongs log slot x)
    (ht : t ∈ slot.templates x) : ∃ o text, e.MadeIn log o text t := by
  cases slot with
  | byDefault =>
    obtain rfl := List.mem_singleton.1 ht
    exact ⟨_, h⟩
  | entry name =>
    obtain ⟨i, locals, text, hview, hlayout⟩ := h
    rcases List.mem_cons.1 ht with rfl | ht
    · exact ⟨_, text, i, hview⟩
    · rw [Option.mem_toList] at ht
      split at hlayout
      · rw [hlayout] at ht
        cases ht
      · obtain ⟨text, t', ht', hmade⟩ := hlayout
        obtain rfl := Option.some.inj (ht'.symm.trans ht)
        exact ⟨_, text, i, hmade⟩

/-- What a task recalls belongs where it was recalled from. -/
theorem belongs_of_recalled (h : (e.started base files tasks).Trace log s) (slot : Slot)
    {x : slot.Content} (hx : .answered i (slot.recalled (some x)) ∈ log) :
    e.Belongs log slot x := by
  obtain ⟨before, after, rfl⟩ := List.append_of_mem hx
  obtain ⟨m, hm, h'⟩ := h.split
  exact (filled hm (Slot.found_eq h').symm).append _

theorem EntryOf.belongs (h : (e.started base files tasks).Trace log s) {name : String}
    {locals : Fields} {entry : CacheEntry} (he : e.EntryOf (stepsOf i log) name locals entry) :
    e.Belongs log (.entry name) entry := by
  rcases he with ⟨hm, -⟩ | ⟨text, hfiled⟩
  · exact belongs_of_recalled h (.entry name) (mem_stepsOf.1 hm)
  · exact ⟨i, locals, text, hfiled⟩

theorem Has.made (h : (e.started base files tasks).Trace log s) {q : Query} {p : Prepared}
    (hp : e.Has q (stepsOf i log) p) : (∃ o text, e.MadeIn log o text p.view) ∧
      ∀ t, p.layout = some t → ∃ o text, e.MadeIn log o text t := by
  obtain ⟨entry, hentry, hview, hlayout⟩ := hp
  have hbelongs := hentry.belongs h
  refine ⟨hbelongs.made (hview ▸ List.mem_cons_self), fun t ht => ?_⟩
  cases hl : entry.layout with
  | some layout =>
    rw [hl] at hlayout
    obtain rfl := Option.some.inj (hlayout.symm.trans ht)
    exact hbelongs.made (List.mem_cons_of_mem _ (Option.mem_toList.2 hl))
  | none =>
    rw [hl] at hlayout
    rcases hlayout t ht with ⟨hm, -⟩ | ⟨text, hmade⟩
    · exact ⟨_, belongs_of_recalled h .byDefault (mem_stepsOf.1 hm)⟩
    · exact ⟨_, text, i, hmade⟩

theorem made_of_due (h : (e.started base files tasks).Trace log s) {locals : Fields} {scope : Scope}
    (hd : e.Due tasks i (stepsOf i log) t locals scope) : ∃ o text, e.MadeIn log o text t := by
  obtain ⟨q, -, howes⟩ := hd.owes
  cases howes with
  | view hp => exact (hp.made h).1
  | layout hp ht _ => exact (hp.made h).2 t ht

/-- What a task hands over or gets was made by some task. -/
theorem made_of_handed (h : (e.started base files tasks).Trace log s) {step : Step}
    (hm : .answered i step ∈ log) (ht : t ∈ step.templates) : ∃ o text, e.MadeIn log o text t := by
  obtain ⟨before, after, rfl⟩ := List.append_of_mem hm
  obtain ⟨r, answer⟩ := step
  have hr := obeyed h
  obtain ⟨m, hbefore, -⟩ := h.split
  -- What a task compiles it has made; what it executes or stores it owes, and what it recalls
  -- stood in the cache.
  cases r with
  | compile key text =>
    cases answer with
    | error err => cases ht
    | ok t' =>
      obtain rfl := List.mem_singleton.1 ht
      obtain ⟨o, hmade⟩ := MayCompile.made (t := t) hr
      have hp := stepsOf_prefix_append i (before ++ [.answered i ⟨.compile key text, .ok t⟩]) after
      rw [stepsOf_append, stepsOf_answered_self, List.append_assoc] at hp
      exact ⟨o, text, i, hmade.mono hp⟩
  | execute t' locals scope =>
    obtain rfl := List.mem_singleton.1 ht
    obtain ⟨o, text, hmade⟩ := made_of_due hbefore hr
    exact ⟨o, text, hmade.append _⟩
  | recallEntry name =>
    cases answer with
    | none => cases ht
    | some entry => exact (belongs_of_recalled h (.entry name) hm).made ht
  | storeEntry name entry =>
    exact ((belongs_of_warranted (.entry name) hr).append _).made ht
  | recallDefault =>
    cases answer with
    | none => cases ht
    | some t' => exact (belongs_of_recalled h .byDefault hm).made ht
  | storeDefault t' =>
    exact ((belongs_of_warranted .byDefault hr).append _).made ht
  | _ => cases ht

end Engine

open Engine

/-- **With caching, compiled templates stand.** Renders, registrations of partials and changes of
the files may interleave in any way, as long as no partial is registered under a name like that of a
key. What the cache holds belongs there; all that tasks hand over was made from texts that they
read; what was made stands as it was made; and it is that text that is executed, on the registry of
that moment. -/
theorem templates_stand {e : Engine} {base : Registry} {files : Files.FileTree} {tasks : List Task}
    {log : List Happening} {s : Sharing Task.Report} (hon : e.config.caching = true)
    (h : (e.started base files tasks).Trace log s) (hp : Apart log) :
    (∀ (slot : Slot) (x : slot.Content), slot.get? s.world.cache = some x →
        e.Belongs log slot x ∧ ∀ t ∈ slot.templates x, ∃ o text, e.MadeIn log o text t) ∧
      (∀ i step t, .answered i step ∈ log → t ∈ step.templates → ∃ o text, e.MadeIn log o text t) ∧
      (∀ o text t, e.MadeIn log o text t → s.world.registry.Holds t.key text) ∧
      ∀ before i t locals scope answer after,
        log = before ++ .answered i ⟨.execute t locals scope, answer⟩ :: after →
        ∃ (o : Origin) (text : String) (m : Sharing Task.Report), e.MadeIn before o text t ∧
          (e.started base files tasks).Trace before m ∧ m.world.registry.Holds t.key text ∧
          answer = m.world.registry.execute t (.object locals) scope := by
  refine ⟨fun slot x hx => ?_, fun i step t hm ht => made_of_handed h hm ht,
    fun o text t ht => stands hon h hp ht, ?_⟩
  · have hbelongs := filled h hx
    exact ⟨hbelongs, fun t ht => hbelongs.made ht⟩
  · rintro before i t locals scope answer after rfl
    have hdue := obeyed h
    obtain ⟨m, hm, h'⟩ := h.split
    obtain ⟨-, -, -, hanswer, -⟩ := h'.asked
    obtain ⟨o, text, hmade⟩ := made_of_due hm hdue
    have hbefore : Apart before := fun name hn =>
      hp name (List.filterMap_append .. ▸ List.mem_append_left _ hn)
    exact ⟨o, text, m, hmade, hm, stands hon hm hbefore hmade, hanswer⟩

/-- A directory with one view. -/
def oneView (text : String) : Files.FileTree :=
  ⟨.directory [("views", .directory [("a.hbs", .file text)])], []⟩

/-- The template that a task compiles, with its text. -/
def Happening.compiled? : Happening → Option (Compiled × String)
  | .answered _ ⟨.compile _ text, .ok t⟩ => some (t, text)
  | _ => none

theorem Engine.MadeIn.mem_compiled {e : Engine} {log : List Happening} {o : Origin} {text : String}
    {t : Compiled} (h : e.MadeIn log o text t) :
    (t, text) ∈ log.filterMap Happening.compiled? := by
  obtain ⟨i, hmade⟩ := h
  cases hmade with
  | file ho hi h =>
    have hm := h.subset (List.mem_cons_of_mem _ (List.mem_singleton_self _))
    exact List.mem_filterMap.2 ⟨_, mem_stepsOf.1 hm, rfl⟩
  | identity h => exact List.mem_filterMap.2 ⟨_, mem_stepsOf.1 h, rfl⟩

/-- A render that was overtaken by another, after the file had changed, leaves its own template,
with the old text, and the other one leaves the new text under another key. -/
theorem templates_stand_overtaken :
    let e : Engine := ⟨{ viewPath := "views" }⟩
    let base := (freshRegistry {}).withBlockHelpers "block" "contentFor"
    let tasks : List Task := [.render { name := "a" }, .register "p" "P", .render { name := "a" }]
    let turns : List Turn := [.answer 0 5, .edit (oneView "new"), .answer 1 1, .answer 2 20,
      .answer 0 20]
    let followed := (e.started base (oneView "old") tasks).follow turns
    Apart followed.1 ∧ followed.2.world.registry.Holds "view::views/a.hbs#0" "new" ∧
      followed.2.world.registry.Holds "view::views/a.hbs#1" "old" := by
  intro e base tasks turns followed
  have hregistered : followed.1.filterMap Happening.registered? = ["p"] := by cbv
  have hp : Apart followed.1 := by
    rw [Apart, hregistered]
    decide
  have hcompiled : followed.1.filterMap Happening.compiled? =
      [(⟨"view::views/a.hbs#0", "view::views/a.hbs#0"⟩, "new"),
        (⟨"layout::@identity", "layout::@identity"⟩, "{{{body}}}"),
        (⟨"view::views/a.hbs#1", "view::views/a.hbs#1"⟩, "old")] := by
    cbv
  have htrace : (e.started base (oneView "old") tasks).Trace followed.1 followed.2 :=
    Sharing.follow_trace turns _
  obtain ⟨-, hmade, hstands, -⟩ := templates_stand (e := e) rfl htrace hp
  clear_value followed
  have hone : ∀ x ∈ followed.1.filterMap Happening.compiled?,
      ∀ y ∈ followed.1.filterMap Happening.compiled?, x.1 = y.1 → x.2 = y.2 := by
    rw [hcompiled]
    decide
  have hholds {t : Compiled} {text : String}
      (hm : (t, text) ∈ followed.1.filterMap Happening.compiled?) :
      followed.2.world.registry.Holds t.key text := by
    obtain ⟨x, hx, hc⟩ := List.mem_filterMap.1 hm
    unfold Happening.compiled? at hc
    split at hc
    · cases hc
      obtain ⟨o, text', hmade'⟩ := hmade _ _ t hx (List.mem_singleton_self _)
      obtain rfl : text' = text := hone _ hmade'.mem_compiled _ hm rfl
      exact hstands o text' t hmade'
    · cases hc
  rw [hcompiled] at hholds
  exact ⟨hp, hholds List.mem_cons_self,
    hholds (List.mem_cons_of_mem _ (List.mem_cons_of_mem _ List.mem_cons_self))⟩

end Views
