import Views.Proofs.Engine.Confinement
import Views.Proofs.Engine.Serve

/-!
# Renders at once

Renders that share an engine with caching interleave their requests in any order. What each of them
finds in the stores was put there by some of the others, but the invariant of the stores
(`Setting.Steady`) makes all of it what the render would have put there itself, so each render ends
as it does alone (`interleaved_alike`).
-/

set_option autoImplicit false

namespace Views

open Engine

/-- **Renders at once do not disturb each other.** -/
theorem interleaved_alike {config : Config} {r base : Registry} {e : Engine}
    {files : Files.FileTree} {qs : List Query} {s : Sharing (Except ViewError String)}
    (hb : build config r = .ok (e, base)) (hon : config.disableCache = false)
    (hnames : ((e.partials.listed files).map e.partials.partialName).Nodup)
    (hkeys : ∀ path ∈ e.partials.listed files, ¬ KeyLike (e.partials.partialName path))
    (hlayout : ∀ q ∈ qs, ∀ q' ∈ qs, q.logical = q'.logical →
      Table.get? (e.merged q) "layout" = Table.get? (e.merged q') "layout")
    (hconf : ∀ q ∈ qs, e.Confined base files (fun name => ¬ KeyLike name) q)
    (hs : (Sharing.mk (e.world base files) (qs.map e.answer)).Reaches s) :
    (∃ s', s.Reaches s' ∧ s'.Ended) ∧
      ∀ (i : Nat) (q : Query) (result : Except ViewError String), qs[i]? = some q →
        s.programs[i]? = some (.done result) →
        Alike result ((e.answer q).run (e.world base files)).result := by
  obtain ⟨rfl, hv, -⟩ := of_build hb
  let c : Setting :=
    { engine := e, base, files
      governed := fun name => ¬ KeyLike name
      chosen := e.choices files qs
      cached := fun _ => False
      valid := hv
      plain := fun _ h => h }
  have hcaching : e.config.caching = true := by rw [Config.caching, hon]; rfl
  have hscan := not_keyLike_of_mem_scan hkeys
  have hsettled (o : Origin) : c.SettledAt o :=
    fun _ _ hoff => absurd (hoff.symm.trans hcaching) Bool.false_ne_true
  have hstart : c.Steady (e.world base files) := c.steady_world fun _ h => h
  have hrendered (q) (hq : q ∈ qs) (w) (hw : c.Steady w) :
      (e.answer q).Meets c.Steady c.Later c.Later (fun result _ =>
        c.Rendered q (e.ownChoice files q) result) w :=
    (c.answer_meets hw (fun _ _ h => h) (fun _ _ h => h)
      (fun v hv => c.ensureScanned_safe hv hcaching hscan hnames) (choices_of_mem hlayout hq)
      (.inr chooseLayout_of_ownChoice) (hsettled _) (hsettled _)).mono fun _ _ h => h.2.1
  refine ⟨s.reaches_ended, fun i q result hq hdone => ?_⟩
  obtain ⟨-, hends⟩ := Sharing.meets (I := c.Steady) (R := c.Later)
    (Q := fun i result _ => ∀ q, qs[i]? = some q → c.Rendered q (e.ownChoice files q) result)
    Setting.Later.refl (fun _ _ _ => Setting.Later.trans) hs hstart fun i p hp => by
      rw [List.getElem?_map, Option.map_eq_some_iff] at hp
      obtain ⟨q, hq, rfl⟩ := hp
      refine ⟨e.world base files, .refl _, (hrendered q (List.mem_of_getElem? hq) _ hstart).mono ?_⟩
      intro result _ hresult q' hq'
      obtain rfl := Option.some.inj (hq.symm.trans hq')
      exact hresult
  obtain ⟨w, -, hresult⟩ := hends i _ hdone
  have hq' := List.mem_of_getElem? hq
  have halone := (c.answer_alone hstart (fun _ => hscan) (choices_of_mem hlayout hq')
    (.inr chooseLayout_of_ownChoice) (hsettled _) (hsettled _)).2.1
  exact Setting.Rendered.alike (hconf q hq') (hresult q hq) halone

/-- Two renders of one view, however they are interleaved, end as one of them alone. -/
theorem interleaved_including :
    let e := includingEngine false
    let base := (freshRegistry {}).withBlockHelpers "block" "contentFor"
    let qs : List Query := [{ name := "a" }, { name := "a" }]
    let start := Sharing.mk (e.world base (includingFiles "N")) (qs.map e.answer)
    ∃ s, start.Reaches s ∧ s.Ended ∧
      ∀ (i : Nat) (q : Query) (result : Except ViewError String), qs[i]? = some q →
        s.programs[i]? = some (.done result) →
        Alike result ((e.answer q).run (e.world base (includingFiles "N"))).result := by
  intro e base qs start
  have hb : build (includingEngine false).config (freshRegistry {}) = .ok (e, base) := rfl
  have hnames := names_including "N" false
  have hmem : ∀ q ∈ qs, q = { name := "a" } := by simp [qs]
  have hlayout : ∀ q ∈ qs, ∀ q' ∈ qs, q.logical = q'.logical →
      Table.get? (e.merged q) "layout" = Table.get? (e.merged q') "layout" := by
    intro q hq q' hq' _
    rw [hmem q hq, hmem q' hq']
  have hconf : ∀ q ∈ qs, e.Confined base (includingFiles "N") (fun name => ¬ KeyLike name) q := by
    intro q hq
    rw [hmem q hq]
    exact confined_including (fun _ h => h) (by decide) rfl false
  obtain ⟨s, hs, hended⟩ := start.reaches_ended
  exact ⟨s, hs, hended,
    (interleaved_alike hb rfl (hnames ▸ List.nodup_singleton _)
      (not_keyLike_including "N" false) hlayout hconf hs).2⟩

/-- A view that includes a partial whose name is a variable, and another view. -/
def computingFiles : Files.FileTree :=
  ⟨.directory [("views", .directory [("a.hbs", .file "{{#> (lookup this q)}}none{{/}}"),
    ("b.hbs", .file "B")])], []⟩

/-- A partial tag with a computed name can include the view of another render. -/
theorem interleaved_not_alike :
    let e : Engine := ⟨{ viewPath := "views" }⟩
    let base := (freshRegistry {}).withBlockHelpers "block" "contentFor"
    let q : Query :=
      { name := "a", locals := [("p", .string "view::views/b.hbs#0"), ("q", .string "p")] }
    let start := e.world base computingFiles
    (∃ s, (Sharing.mk start [e.answer { name := "b" }, e.answer q]).Reaches s ∧
        s.programs[1]? = some (.done (.ok "B"))) ∧
      e.partials.listed computingFiles = [] ∧
      ((e.answer q).run start).result = .ok "none" := by
  intro e base q start
  refine ⟨⟨_, .trans (Sharing.reaches_run (i := 0) rfl) (Sharing.reaches_run (i := 1) rfl), ?_⟩,
    rfl, ?_⟩
  · have hrun : ((e.answer q).run ((e.answer { name := "b" }).run start).world).result =
        .ok "B" := by
      cbv
    exact congrArg (fun result => some (Program.done result)) hrun
  · cbv

end Views
