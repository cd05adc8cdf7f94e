import Views.Proofs.Engine.Confinement
import Views.Proofs.Engine.Serve

/-!
# Rendering without caching

Without caching a render reads its view and its layout again and registers the partials that their
markers refer to, so it can depend on what happened before only through other partials, which stay
in the registry. `Engine.live` is a history of renders and changes of the files; two histories that
end with the same files are followed by the same result of a render, if its templates use no other
partials (`rendered_eq_after`).
-/

set_option autoImplicit false

namespace Views

open Engine

/-- What happens to an engine: a render, or any change of the files. -/
inductive Event where
  | render (q : Query)
  | change (files : Files.FileTree)

/-- The world after a history. -/
def Engine.live (e : Engine) (history : List Event) (w : World) : World :=
  match history with
  | [] => w
  | .render q :: rest => e.live rest ((e.answer q).run w).world
  | .change files :: rest => e.live rest { w with files }

/-- A partial that a render without caching registers from a marker in a text that it loads. -/
def Engine.Refreshed (e : Engine) (files : Files.FileTree) (q : Query)
    (entry : String × Template) : Prop :=
  ∃ o, (o = .view q.logical ∨ o = e.originOf (e.ownChoice files q)) ∧
    (∃ t, e.load files o none = .ok t) ∧
    ∃ text, e.textOf files o = .ok text ∧ entry ∈ e.partials.named files text

/-- A registry with the helpers of the first one that holds the partials a render registers. -/
def Engine.UpToDate (e : Engine) (base : Registry) (files : Files.FileTree) (q : Query)
    (r : Registry) : Prop :=
  base.Like r ∧ ∀ entry, e.Refreshed files q entry → r.templates.get? entry.1 = some entry.2

/-- The names of these partials, and that of the body of a tag. -/
def Engine.refreshedNames (e : Engine) (files : Files.FileTree) (q : Query) (name : String) :
    Prop :=
  name = Evaluation.bodyName ∨ ∃ t, e.Refreshed files q (name, t)

/-- The outcome is determined if all partial tags of the render have fixed names, and in its texts a
marker of the same name. -/
theorem determined_of_refreshed {e : Engine} {base : Registry} {files : Files.FileTree} {q : Query}
    (ht : e.Includes files (e.refreshedNames files q) q)
    (hclosed : ∀ entry, e.Refreshed files q entry →
      entry.2.Within (e.refreshedNames files q)) :
    e.Determined files (e.UpToDate base files q) (· = none) Eq q := by
  refine determined_eq (fun r r' hr hr' => ⟨?_, fun name hn hb => ?_, fun name t hn hb hg => ?_⟩) ht
  · exact ⟨hr.1.helpers.symm.trans hr'.1.helpers, hr.1.strict.symm.trans hr'.1.strict,
      hr.1.escaping.symm.trans hr'.1.escaping⟩
  · obtain ⟨t, hn⟩ := hn.resolve_left hb
    rw [hr.2 _ hn, hr'.2 _ hn]
  · obtain ⟨u, hn⟩ := hn.resolve_left hb
    obtain rfl := Option.some.inj ((hr.2 _ hn).symm.trans hg)
    exact hclosed _ hn

/-! ## Histories -/

/-- The stores of an engine without caching keep nothing but the registry. -/
structure Unkept (base : Registry) (w : World) : Prop where
  enabled : w.cache.enabled = false
  like : base.Like w.registry
  paths : ∀ name, w.paths.get? name = none

/-- The setting of one render without caching. -/
def Engine.uncached (e : Engine) (base : Registry) (files : Files.FileTree) (q : Query)
    (hv : e.config.viewPath ≠ "") : Setting where
  engine := e
  base := base
  files := files
  governed := fun _ => False
  chosen := fun _ => some (e.ownChoice files q)
  cached := fun _ => False
  valid := hv
  plain := Setting.plain_of_ungoverned

section

variable {e : Engine} {base : Registry} {q : Query} {hv : e.config.viewPath ≠ ""}
  (hoff : e.config.caching = false)
include hoff

theorem Unkept.steady {w : World} (h : Unkept base w) :
    (e.uncached base w.files q hv).Steady w where
  files := rfl
  enabled := h.enabled.trans hoff.symm
  like := h.like
  paths name path hp := absurd (hp.symm.trans (h.paths name)) nofun
  entries name entry he := by
    rw [Cache.get?_of_disabled _ _ h.enabled] at he
    cases he
  cached _ hn := hn.elim
  default t ht := by
    rw [Cache.defaultLayout?, h.enabled] at ht
    cases ht
  partials _ hg := hg.elim
  scanned _ _ hg := hg.elim

theorem unkept_of_steady {files : Files.FileTree} {w : World}
    (h : (e.uncached base files q hv).Steady w) : Unkept base w where
  enabled := h.enabled.trans hoff
  like := h.like
  paths name := by
    cases hp : w.paths.get? name with
    | none => rfl
    | some path => exact absurd (hoff.symm.trans (h.paths name path hp).1) Bool.false_ne_true

omit hoff in
theorem settledAt_uncached {files : Files.FileTree} (o : Origin) :
    (e.uncached base files q hv).SettledAt o :=
  fun _ _ _ _ _ hg => hg.elim

theorem Unkept.answer {w : World} (hv : e.config.viewPath ≠ "") (h : Unkept base w) :
    Unkept base ((e.answer q).run w).world ∧
      (e.uncached base w.files q hv).Rendered q (e.ownChoice w.files q)
        ((e.answer q).run w).result := by
  obtain ⟨hs, hr, -⟩ := (e.uncached base w.files q hv).answer_alone (h.steady hoff)
    (fun hon => absurd (hoff.symm.trans hon) Bool.false_ne_true) rfl
    (.inr chooseLayout_of_ownChoice) (settledAt_uncached _) (settledAt_uncached _)
  exact ⟨unkept_of_steady hoff hs, hr⟩

omit q in
theorem Unkept.live (hv : e.config.viewPath ≠ "") {history : List Event} {w : World}
    (h : Unkept base w) : Unkept base (e.live history w) := by
  induction history generalizing w with
  | nil => exact h
  | cons event rest ih =>
    cases event with
    | render q => exact ih (h.answer hoff hv).1
    | change files => exact ih ⟨h.enabled, h.like, h.paths⟩

theorem upToDate_of_ready {files : Files.FileTree} {i j : Option Nat} {p : Prepared} {v : World}
    (hp : e.plan files q.logical (e.ownChoice files q) i j = .ok p)
    (hv' : (e.uncached base files q hv).Steady v)
    (hr : (e.uncached base files q hv).Ready q.logical (e.ownChoice files q) p v) :
    e.UpToDate base files q v.registry := by
  have held {o : Origin} {t : Compiled} (h : e.Held files v.registry o t) :
      ∀ text, e.textOf files o = .ok text → ∀ entry ∈ e.partials.named files text,
        v.registry.templates.get? entry.1 = some entry.2 := by
    obtain ⟨-, text, ht, -, hn⟩ := h
    intro text' ht'
    obtain rfl := Except.ok.inj (ht.symm.trans ht')
    exact hn hoff
  refine ⟨hv'.like, ?_⟩
  rintro entry ⟨o, rfl | rfl, ⟨t, ht⟩, text, htext, hm⟩
  · exact held hr.view text htext entry hm
  · obtain ⟨u, hu⟩ := exists_layout_of_plan hp ht
    exact held (hr.layout u hu) text htext entry hm

theorem Unkept.outcome {w : World} (hv : e.config.viewPath ≠ "") (h : Unkept base w) :
    e.Outcome w.files (e.UpToDate base w.files q) (· = none) q ((e.answer q).run w).result := by
  refine .mono ((h.answer hoff hv).2.outcome fun i j p v hp hs hr =>
    upToDate_of_ready hoff hp hs hr) fun i hi => ?_
  rw [Numbered, show (e.uncached base w.files q hv).engine.config.caching = false from hoff] at hi
  simpa using hi

end

/-- **A render without caching does not depend on the past** but through partials that it does not
register itself. -/
theorem rendered_eq_after {config : Config} {r base : Registry} {e : Engine}
    {files files' : Files.FileTree} {history history' : List Event} {q : Query}
    (hb : build config r = .ok (e, base)) (hoff : config.disableCache = true)
    (hfiles : (e.live history (e.world base files)).files =
      (e.live history' (e.world base files')).files)
    (hconf : e.Determined (e.live history (e.world base files)).files
      (e.UpToDate base (e.live history (e.world base files)).files q) (· = none) Eq q) :
    ((e.answer q).run (e.live history (e.world base files))).result =
      ((e.answer q).run (e.live history' (e.world base files'))).result := by
  obtain ⟨rfl, hv, -⟩ := of_build hb
  have hcaching : e.config.caching = false := by rw [Config.caching, hoff]; rfl
  have hstart (F : Files.FileTree) : Unkept base (e.world base F) :=
    ⟨hcaching, ⟨rfl, rfl, rfl⟩, fun _ => rfl⟩
  have h : Unkept base (e.live history (e.world base files)) := (hstart files).live hcaching hv
  have h' : Unkept base (e.live history' (e.world base files')) :=
    (hstart files').live hcaching hv
  exact Outcome.eq hconf (h.outcome hcaching hv) (hfiles ▸ h'.outcome hcaching hv)

/-- After its partial was changed a view is rendered as on a new engine. -/
theorem rendered_eq_after_change :
    let e := includingEngine true
    let base := (freshRegistry {}).withBlockHelpers "block" "contentFor"
    let q : Query := { name := "a" }
    ((e.answer q).run (e.live [.render q, .change (includingFiles "N")]
        (e.world base (includingFiles "M")))).result =
      ((e.answer q).run (e.live [] (e.world base (includingFiles "N")))).result := by
  intro e base q
  have hb : build (includingEngine true).config (freshRegistry {}) = .ok (e, base) := rfl
  have hnamed : (e.partials.named (includingFiles "N") "{{> nav}}A").map
      (fun entry => (entry.1, entry.2.inclusions)) = [("nav", [])] := by
    cbv
  have hidentity : e.partials.named (includingFiles "N") identitySource = [] := by
    cbv
  have hload : e.load (includingFiles "N") (.view q.logical) none =
      .ok ⟨"view::views/a.hbs", "view::views/a.hbs"⟩ := by
    cbv
  have hnav : e.refreshedNames (includingFiles "N") q "nav" := by
    have hmem : ("nav", []) ∈ (e.partials.named (includingFiles "N") "{{> nav}}A").map
        (fun entry => (entry.1, entry.2.inclusions)) := hnamed ▸ List.mem_singleton_self _
    obtain ⟨⟨name, t⟩, hm, heq⟩ := List.mem_map.1 hmem
    obtain ⟨rfl, -⟩ := Prod.mk.inj heq
    exact .inr ⟨t, .view q.logical, .inl rfl, ⟨_, hload⟩, _, textOf_including "N" true, hm⟩
  have hclosed : ∀ entry, e.Refreshed (includingFiles "N") q entry →
      entry.2.Within (e.refreshedNames (includingFiles "N") q) := by
    rintro entry ⟨o, rfl | rfl, -, text, ht, hm⟩
    · obtain rfl := Except.ok.inj ((textOf_including "N" true).symm.trans ht)
      have hmem := List.mem_map_of_mem (f := fun entry => (entry.1, entry.2.inclusions)) hm
      rw [hnamed, List.mem_singleton, Prod.mk.injEq] at hmem
      rw [Template.Within, hmem.2]
      exact PartialName.within_nil
    · rw [originOf_including] at ht
      obtain rfl := Except.ok.inj ht
      rw [hidentity] at hm
      cases hm
  have hconf : e.Determined (includingFiles "N") (e.UpToDate base (includingFiles "N") q) (· = none)
      Eq q := determined_of_refreshed (includes_including hnav "N" true) hclosed
  exact rendered_eq_after hb rfl rfl hconf

/-- A view that includes a partial that includes another one, which has some text. -/
def nestedFiles (text : String) : Files.FileTree :=
  ⟨.directory [("partials", .directory [("inner.hbs", .file text),
      ("outer.hbs", .file "O({{> inner}})")]),
    ("views", .directory [("a.hbs", .file "{{> outer}}")])], []⟩

/-- A partial that is included by another one is not read again. -/
theorem rendered_ne_after_change :
    let e := includingEngine true
    let base := (freshRegistry {}).withBlockHelpers "block" "contentFor"
    let q : Query := { name := "a" }
    ((e.answer q).run (e.live [.render q, .change (nestedFiles "I2")]
        (e.world base (nestedFiles "I1")))).result = .ok "O(I1)" ∧
      ((e.answer q).run (e.live [] (e.world base (nestedFiles "I2")))).result = .ok "O(I2)" := by
  refine ⟨?_, ?_⟩
  · cbv
  · cbv

end Views
