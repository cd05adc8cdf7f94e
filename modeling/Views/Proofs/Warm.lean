import Views.Proofs.Engine.Alone
import Views.Proofs.Engine.Memo
import Views.Proofs.Stability

/-!
# Renders from the cache

A render whose view is in the cache, with a layout there as well, only recalls
(`prepare_recalls`): it neither touches the files nor compiles nor registers anything, and it
executes what it has found (`warm_render`).
-/

set_option autoImplicit false

namespace Views

namespace Engine

variable {e : Engine} {w : World} {q : Query} {name : String} {entry : CacheEntry}
  {layout : Compiled}

open Program

theorem resolve_recalls (h : Files.isAbsolute name = false →
    w.paths.get? name = some (e.resolver.templatePath name)) :
    (e.resolver.resolve name).Recalls w (some (e.resolver.templatePath name)) := by
  unfold Resolver.resolve
  split
  · rename_i ha
    rw [Setting.templatePath_of_isAbsolute e ha]
    exact .done _
  · rename_i ha
    have hpath := h (by simpa using ha)
    refine .bind (.ask (World.perform_recallPath w name) id (.done _)) ?_
    rw [hpath]
    exact .done _

theorem ensureScanned_recalls (h : e.partials.enabled = false ∨ w.scanned = true) :
    e.partials.ensureScanned.Recalls w () := by
  unfold PartialSource.ensureScanned
  split
  · rename_i hen
    have hscanned := h.resolve_left (by simp [hen])
    have hrecall : w.perform .recallScan = (true, w) := congrArg (·, w) hscanned
    exact .bind (.ask hrecall id (.done _)) (.done ())
  · exact .done ()

theorem entryFor_recalls (h : w.cache.get? name = some entry) (path : String) (locals : Fields) :
    Recalls w (e.entryFor name path locals) (.ok entry) := by
  rw [entryFor_eq]
  refine .ask (World.perform_recallEntry w name) id ?_
  rw [h]
  exact .done _

theorem layout_recalls (h : (entry.layout <|> w.cache.defaultLayout?) = some layout) :
    Recalls w (match entry.layout with
      | some layout => pure (some layout)
      | none => e.defaultLayout : Program _) (some layout) := by
  cases hl : entry.layout with
  | some own =>
    rw [hl] at h
    obtain rfl := Option.some.inj h
    exact .done _
  | none =>
    rw [hl] at h
    refine .bind (.ask (World.perform_recallDefault w) id (.done _)) ?_
    rw [show w.cache.defaultLayout? = some layout from h]
    exact .done _

/-- What is in the cache is prepared by looking it up. -/
theorem prepare_recalls (hpath : Files.isAbsolute name = false →
      w.paths.get? name = some (e.resolver.templatePath name))
    (hscan : e.partials.enabled = false ∨ w.scanned = true)
    (hentry : w.cache.get? name = some entry)
    (hlayout : (entry.layout <|> w.cache.defaultLayout?) = some layout) (merged : Fields) :
    Recalls w (e.prepare name merged) (.ok ⟨entry.template, some layout⟩) := by
  rw [prepare_eq]
  exact (resolve_recalls hpath).bind ((ensureScanned_recalls hscan).bind
    ((entryFor_recalls hentry _ _).bind ((layout_recalls hlayout).bind (.done _))))

end Engine

open Engine

/-- **A render of what is in the cache loads nothing.** Renders, registrations of partials and
changes of the files may have interleaved in any way: every relative name with an entry has its path
kept, and if the entry has a layout, or there is a default one, and no scan is due, then a render of
that name looks up these templates and executes them. -/
theorem warm_render {e : Engine} {base : Registry} {files : Files.FileTree} {tasks : List Task}
    {log : List Happening} {s : Sharing Task.Report} (hon : e.config.caching = true)
    (h : (e.started base files tasks).Trace log s) :
    (∀ name, Files.isAbsolute name = false → (s.world.cache.get? name).isSome = true →
      s.world.paths.get? name = some (e.resolver.templatePath name)) ∧
    ∀ (q : Query) (entry : CacheEntry) (layout : Compiled),
      s.world.cache.get? q.logical = some entry →
      (entry.layout <|> s.world.cache.defaultLayout?) = some layout →
      (e.partials.enabled = false ∨ s.world.scanned = true) →
      let run := (e.answer q).run s.world
      (∀ step ∈ run.steps, ¬ step.1.Loads) ∧ run.world = s.world ∧
        (executions run.steps =
          match s.world.registry.ran entry.template (e.merged q) (e.startScope q) with
          | .error _ => [entry.template]
          | .ok _ => [entry.template, layout]) ∧
        run.result =
          e.finished q ⟨entry.template, some layout⟩ s.world.registry s.world.registry := by
  have hpath (name : String) (ha : Files.isAbsolute name = false)
      (hs : (s.world.cache.get? name).isSome = true) := memoized hon h hs ha
  refine ⟨hpath, fun q entry layout hentry hlayout hscan => ?_⟩
  have hprepare := prepare_recalls (e := e) (fun ha => hpath _ ha (hentry ▸ rfl)) hscan hentry
    hlayout (e.merged q)
  have hrun : Program.Recalls s.world (e.answer q)
      (e.finished q ⟨entry.template, some layout⟩ s.world.registry s.world.registry) := by
    rw [answer_bind]
    exact hprepare.bind (finish_recalls (q := q) _)
  exact ⟨hrun.steps, hrun.world, (answer_run hprepare.result hprepare.world).2.2, hrun.result⟩

/-- A view that was rendered once is rendered again when all files are gone. -/
theorem warm_render_without_files :
    let e : Engine := ⟨{ viewPath := "views" }⟩
    let base := (freshRegistry {}).withBlockHelpers "block" "contentFor"
    let q : Query := { name := "a" }
    let w := ((e.started base (oneView "A") [.render q]).follow
      [.answer 0 20, .edit .empty]).2.world
    let run := (e.answer q).run w
    w.paths.get? "a" = some "views/a.hbs" ∧ (∀ step ∈ run.steps, ¬ step.1.Loads) ∧
      (executions run.steps).map Compiled.key = ["view::views/a.hbs#0", "layout::@identity"] ∧
      run.result = .ok "A" := by
  intro e base q w run
  have hpath : e.resolver.templatePath "a" = "views/a.hbs" := by cbv
  let view : Compiled := ⟨"view::views/a.hbs#0", "view::views/a.hbs#0"⟩
  let layout : Compiled := ⟨"layout::@identity", "layout::@identity"⟩
  have hentry : w.cache.get? q.logical = some ⟨view, none⟩ := by cbv
  have hlayout : w.cache.defaultLayout? = some layout := by cbv
  obtain ⟨hpaths, hwarm⟩ := warm_render (e := e) rfl (Sharing.follow_trace
    [.answer 0 20, .edit .empty] (e.started base (oneView "A") [.render q]))
  obtain ⟨hloads, -⟩ := hwarm q ⟨view, none⟩ layout hentry
    hlayout (.inl rfl)
  have hrun : (executions ((e.answer q).run w).steps).map Compiled.key =
      ["view::views/a.hbs#0", "layout::@identity"] := by
    cbv
  have hout : ((e.answer q).run w).result = .ok "A" := by cbv
  exact ⟨hpath ▸ hpaths "a" (by cbv) (by cbv), hloads, hrun, hout⟩

end Views
