import Views.Proofs.Engine.Confinement
import Views.Proofs.Engine.Serve

/-!
# Caching

An engine with caching and one without go different ways, but both prepare what `Engine.plan` says.
The partials that they execute agree as long as no marker of a text brings in a partial that the
scan of the directory left out or registered from another file (`Engine.settledNames`), so renders
that depend on no other partials end alike on both (`cached_alike_uncached`).
-/

set_option autoImplicit false

namespace Views

open Engine

theorem forall₂_join {α β γ : Type} {P : α → β → Prop} {P' : α → γ → Prop} {R : β → γ → Prop}
    {as : List α} {bs : List β} {cs : List γ} (h : List.Forall₂ P as bs)
    (h' : List.Forall₂ P' as cs) (hr : ∀ a ∈ as, ∀ b c, P a b → P' a c → R b c) :
    List.Forall₂ R bs cs := by
  induction h generalizing cs with
  | nil =>
    cases h'
    exact .nil
  | cons hp _ ih =>
    cases h' with
    | cons hp' h' =>
      exact .cons (hr _ List.mem_cons_self _ _ hp hp')
        (ih h' fun a ha => hr a (List.mem_cons_of_mem _ ha))

/-- The names that no marker in the texts of some renders gives another partial than the scan. -/
def Engine.settledNames (e : Engine) (base : Registry) (files : Files.FileTree) (qs : List Query)
    (name : String) : Prop :=
  ¬ KeyLike name ∧ ∀ q ∈ qs, ∀ o, o = .view q.logical ∨ o = e.originOf (e.ownChoice files q) →
    ∀ text, e.textOf files o = .ok text → ∀ t, (name, t) ∈ e.partials.named files text →
      (e.scanned base files).get? name = some t

/-- The outcomes of a render are a matter of everything in the configuration but caching. -/
theorem Engine.Outcome.of_caching {e e' : Engine} {b : Bool} {files : Files.FileTree}
    {fits : Registry → Prop} {numbers : Option Nat → Prop} {q : Query}
    {result : Except ViewError String} (h : e'.config = { e.config with disableCache := b })
    (ho : e'.Outcome files fits numbers q result) : e.Outcome files fits numbers q result := by
  cases e
  cases e'
  subst h
  exact ho

/-- Renders one after the other on an engine of either mode. -/
theorem serve_outcome {config : Config} {r base : Registry} {e : Engine} {files : Files.FileTree}
    {qs : List Query} (hb : build config r = .ok (e, base))
    (hkeys : ∀ path ∈ e.partials.listed files, ¬ KeyLike (e.partials.partialName path))
    (hlayout : ∀ q ∈ qs, ∀ q' ∈ qs, q.logical = q'.logical →
      Table.get? (e.merged q) "layout" = Table.get? (e.merged q') "layout") :
    List.Forall₂ (fun q result => e.Outcome files (fun r => base.Like r ∧ ∀ name,
        e.settledNames base files qs name →
          r.templates.get? name = (e.scanned base files).get? name) (fun _ => True) q result)
      qs ((e.serve qs).run (e.world base files)).result := by
  obtain ⟨rfl, hv, -⟩ := of_build hb
  let c : Setting :=
    { engine := e, base, files
      governed := e.settledNames base files qs
      chosen := e.choices files qs
      cached := fun _ => False
      valid := hv
      plain := fun _ h => h.1 }
  have hstart : c.Steady (e.world base files) := c.steady_world fun _ h => h
  have hsettled (q) (hq : q ∈ qs) (o) (ho : o = .view q.logical ∨
      o = e.originOf (e.ownChoice files q)) : c.SettledAt o :=
    fun text ht _ entry he hg => hg.2 q hq o ho text ht entry.2 he
  refine (c.serve_rendered hstart (fun _ => not_keyLike_of_mem_scan hkeys) fun q hq =>
    ⟨choices_of_mem hlayout hq, hsettled q hq _ (.inl rfl), hsettled q hq _ (.inr rfl)⟩).imp ?_
  intro q result h
  exact .mono (h.outcome fun _ _ _ _ _ hv hp => ⟨hv.like, hp.settled⟩) fun _ _ => trivial

/-- **Caching changes no result** but through partials that markers register. -/
theorem cached_alike_uncached {config : Config} {r base base' : Registry} {e e' : Engine}
    {files : Files.FileTree} {qs : List Query}
    (hb : build { config with disableCache := false } r = .ok (e, base))
    (hb' : build { config with disableCache := true } r = .ok (e', base'))
    (hkeys : ∀ path ∈ e.partials.listed files, ¬ KeyLike (e.partials.partialName path))
    (hlayout : ∀ q ∈ qs, ∀ q' ∈ qs, q.logical = q'.logical →
      Table.get? (e.merged q) "layout" = Table.get? (e.merged q') "layout")
    (hconf : ∀ q ∈ qs, e.Confined base files (e.settledNames base files qs) q) :
    List.Forall₂ Alike ((e.serve qs).run (e.world base files)).result
      ((e'.serve qs).run (e'.world base' files)).result := by
  have hc := serve_outcome hb hkeys hlayout
  obtain ⟨he, -, hbase⟩ := of_build hb
  obtain ⟨he', -, hbase'⟩ := of_build hb'
  obtain rfl : base' = base := hbase'.trans hbase.symm
  cases e
  cases e'
  subst he he'
  refine forall₂_join hc (serve_outcome hb' hkeys hlayout) fun q hq result result' h h' => ?_
  exact Outcome.alike (hconf q hq) h (.of_caching rfl h')

/-- Two renders of one view with caching and without. -/
theorem cached_alike_uncached_including :
    let e := includingEngine false
    let e' := includingEngine true
    let base := (freshRegistry {}).withBlockHelpers "block" "contentFor"
    let qs : List Query := [{ name := "a" }, { name := "a" }]
    List.Forall₂ Alike ((e.serve qs).run (e.world base (includingFiles "N"))).result
      ((e'.serve qs).run (e'.world base (includingFiles "N"))).result := by
  intro e e' base qs
  have hb : build { e.config with disableCache := false } (freshRegistry {}) = .ok (e, base) := rfl
  have hb' : build { e.config with disableCache := true } (freshRegistry {}) = .ok (e', base) := rfl
  have hnames := names_including "N" false
  have hmem : ∀ q ∈ qs, q = { name := "a" } := by simp [qs]
  have hlayout : ∀ q ∈ qs, ∀ q' ∈ qs, q.logical = q'.logical →
      Table.get? (e.merged q) "layout" = Table.get? (e.merged q') "layout" := by
    intro q hq q' hq' _
    rw [hmem q hq, hmem q' hq']
  have hsame : e.partials.named (includingFiles "N") "{{> nav}}A" =
      e.partials.scan (includingFiles "N") := by
    cbv
  have hidentity : e.partials.named (includingFiles "N") identitySource = [] := by
    cbv
  have hnav : e.settledNames base (includingFiles "N") qs "nav" := by
    refine ⟨by decide, fun q hq o ho text ht t hm => ?_⟩
    obtain rfl := hmem q hq
    rcases ho with rfl | rfl
    · obtain rfl := Except.ok.inj ((textOf_including "N" false).symm.trans ht)
      rw [hsame] at hm
      exact Table.get?_union_of_unique hm fun u hu =>
        PartialSource.loaded_unique (hnames ▸ List.nodup_singleton _) hu hm
    · rw [originOf_including] at ht
      obtain rfl := Except.ok.inj ht
      rw [hidentity] at hm
      cases hm
  refine cached_alike_uncached hb hb' (not_keyLike_including "N" false) hlayout fun q hq => ?_
  rw [hmem q hq]
  exact confined_including (fun _ h => h.1) hnav rfl false

/-- A view that mentions and tries one of two partials, of which the other is no text. -/
def brokenFiles : Files.FileTree :=
  ⟨.directory [("partials", .directory [("a.hbs", .file none), ("b.hbs", .file "B")]),
    ("views", .directory
      [("a.hbs", .file "\x7b\x7b#if c\x7d\x7d{{> b}}\x7b\x7b/if\x7d\x7d{{#> b}}none{{/b}}")])], []⟩

/-- Caching changes a result when a scan fails and leaves out a partial that markers bring in, and
when a partial replaces a layout. -/
theorem cached_not_alike_uncached :
    let e := includingEngine false
    let e' := includingEngine true
    let base := (freshRegistry {}).withBlockHelpers "block" "contentFor"
    let qs : List Query := [{ name := "a" }, { name := "a" }]
    ((e.serve qs).run (e.world base brokenFiles)).result = [.ok "none", .ok "none"] ∧
      ((e'.serve qs).run (e'.world base brokenFiles)).result = [.ok "B", .ok "B"] ∧
      ((e.serve qs).run (e.world base keyedFiles)).result = [.ok "V", .ok "P"] ∧
      ((e'.serve qs).run (e'.world base keyedFiles)).result = [.ok "V", .ok "V"] := by
  refine ⟨?_, ?_, ?_, ?_⟩
  · cbv
  · cbv
  · cbv
  · cbv

end Views
