import Views.Proofs.Engine.Live

/-!
# Renders that fail

A render that fails before it executes anything leaves the cache as it was, and one that fails later
leaves at most a complete entry; the context is untouched in both cases. So nothing is remembered of
a failure: once the files of a view and of its layout are usable, the next render gets past loading
them (`failed_render_keeps`).
-/

set_option autoImplicit false

namespace Views

/-- The errors of renders that fail before they execute anything. -/
def ViewError.Early (err : ViewError) : Prop :=
  err.variant = .missingTemplate ∨ err.variant = .io ∨ err.variant = .compile

namespace Engine

variable {e : Engine} {w v u : World} {name : String} {locals : Fields} {made : List Compiled}
  {err : ViewError} {q : Query}

/-- The cache is as it was, and at most the path of one name is kept in addition. -/
structure Unmarked (e : Engine) (name : String) (w v : World) : Prop where
  cache : v.cache = w.cache
  paths : v.paths = w.paths ∨ w.paths.get? name = none ∧
    v.paths = w.paths.insert name (e.resolver.templatePath name)

/-- At most the entry of one name is new, and then it is complete. -/
structure Completed (e : Engine) (name : String) (locals : Fields) (w v : World) : Prop where
  others : ∀ other, other ≠ name → v.cache.get? other = w.cache.get? other
  entry : v.cache.get? name = w.cache.get? name ∨ w.cache.get? name = none ∧
    ∃ entry, v.cache.get? name = some entry ∧ e.Complete w.files v.registry name locals entry

/-! ## Before the executions -/

theorem Entered.unmarked (hu : e.Readied name w u)
    (h : e.Entered name locals u (.error err) v made) :
    e.Unmarked name w v ∧ (err.variant = .io ∨ err.variant = .compile) := by
  cases h with
  | unusable hmiss h herr hv =>
    exact ⟨⟨hv.cache.trans hu.cache, hv.paths ▸ hu.paths⟩, herr⟩
  | stranded hmiss hview ht hchoice h herr hv =>
    exact ⟨⟨hv.cache.trans hu.cache, hv.paths ▸ hu.paths⟩, herr⟩

/-- A render that cannot be prepared leaves no mark. -/
theorem Prepares.unmarked (h : e.Prepares name locals w (.error err) v made) :
    e.Unmarked name w v ∧ err.Early := by
  cases h with
  | missing hf => exact ⟨⟨rfl, .inl rfl⟩, .inl rfl⟩
  | failed hu h => exact (h.unmarked hu).imp_right .inr

/-! ## After the entry -/

theorem Complete.mono {files : Files.FileTree} {r r' : Registry} {entry : CacheEntry}
    (h : e.Complete files r name locals entry)
    (hheld : ∀ o t, e.Held files r o t → e.Held files r' o t) :
    e.Complete files r' name locals entry := by
  refine ⟨hheld _ _ h.view, fun text ht => ?_⟩
  have hl := h.layout text ht
  cases hc : chooseLayout locals text with
  | byDefault => rwa [hc] at hl
  | identity =>
    rw [hc] at hl
    exact hl.imp fun t ht => ⟨ht.1, hheld _ _ ht.2⟩
  | named layout =>
    rw [hc] at hl
    exact hl.imp fun t ht => ⟨ht.1, hheld _ _ ht.2⟩

/-- A complete entry is without a layout only if the default one was chosen. -/
theorem Complete.byDefault_of_none {files : Files.FileTree} {r : Registry} {entry : CacheEntry}
    {text : String} (h : e.Complete files r name locals entry) (hnone : entry.layout = none)
    (ht : e.textOf files (.view name) = .ok text) : chooseLayout locals text = .byDefault := by
  have hl := h.layout text ht
  cases hc : chooseLayout locals text with
  | byDefault => rfl
  | _ =>
    rw [hc, hnone] at hl
    obtain ⟨t, ht, -⟩ := hl
    cases ht

/-- Looking for an entry makes at most a complete one. -/
theorem Entered.completed (hon : w.cache.enabled = true) {entry : CacheEntry}
    (h : e.Entered name locals w (.ok entry) v made) : e.Completed name locals w v := by
  cases h with
  | kept h => exact ⟨fun _ _ => rfl, .inl rfl⟩
  | @stored text entry v hmiss hview hentry hv =>
    have hget (other : String) : (v.cache.insert name entry).get? other =
        if name = other then some entry else w.cache.get? other := by
      rw [hv.cache, Cache.get?_insert _ _ _ _ hon]
    exact ⟨fun other hne => (hget other).trans (if_neg (Ne.symm hne)),
      .inr ⟨hmiss, entry, (hget name).trans (if_pos rfl), hentry⟩⟩

theorem Completed.of_readied (hu : e.Readied name w u) (h : e.Completed name locals u v) :
    e.Completed name locals w v :=
  ⟨hu.cache ▸ h.others, hu.cache ▸ hu.files ▸ h.entry⟩

theorem Completed.defaulted {u : World} {layout : Option Compiled}
    (h : e.Completed name locals w v) (hfiles : v.files = w.files)
    (hd : e.Defaulted v layout u made) : e.Completed name locals w u := by
  have hget (other : String) : u.cache.get? other = v.cache.get? other := by
    rcases hd.slot_eq (.entry other) with hs | ⟨hs, -⟩
    · exact hs
    · cases hs
  have hgrown {entry : CacheEntry} (hc : e.Complete w.files v.registry name locals entry) :
      e.Complete w.files u.registry name locals entry := by
    cases hd with
    | kept h => exact hc
    | failed hmiss h hv => exact hc.mono (hfiles ▸ hv.held)
    | stored hmiss h ht hv => exact hc.mono (hfiles ▸ hv.held)
  refine ⟨fun other hne => (hget other).trans (h.others other hne), ?_⟩
  rw [hget]
  exact h.entry.imp_right fun ⟨hnone, entry, hentry, hc⟩ => ⟨hnone, entry, hentry, hgrown hc⟩

/-- A render that is prepared has made at most a complete entry. -/
theorem Prepares.completed (hon : w.cache.enabled = true) {p : Prepared}
    (h : e.Prepares name locals w (.ok p) v made) : e.Completed name locals w v := by
  cases h with
  | entered hu h hlayout => exact (h.completed (hu.cache ▸ hon)).of_readied hu
  | defaulted hu h hnone hlayout =>
    exact ((h.completed (hu.cache ▸ hon)).of_readied hu).defaulted (h.files.trans hu.files) hlayout

/-! ## Executing -/

theorem ran_error {r : Registry} {t : Compiled} {scope : Scope}
    (h : r.ran t locals scope = .error err) : err.variant = .execute := by
  unfold Registry.ran at h
  cases hx : (r.execute t (.object locals) scope).1 with
  | ok out => rw [hx] at h; cases h
  | error err' =>
    rw [hx] at h
    cases h
    obtain ⟨message, rfl⟩ := execute_error hx
    rfl

/-- What was prepared has no layout, or fails in the executions. -/
theorem finished_error {p : Prepared} {r r' : Registry} (h : e.finished q p r r' = .error err) :
    err.variant = .layoutUnavailable ∧ p.layout = none ∨ err.variant = .execute := by
  cases hran : r.ran p.view (e.merged q) (e.startScope q) with
  | error err' =>
    rw [finished_of_error hran] at h
    cases h
    exact .inr (ran_error hran)
  | ok a =>
    obtain ⟨body, scope⟩ := a
    rw [finished_of_ok hran] at h
    cases hl : p.layout with
    | none =>
      rw [hl] at h
      cases h
      exact .inl ⟨rfl, rfl⟩
    | some layout =>
      rw [hl] at h
      dsimp only at h
      cases hlast : r'.ran layout (e.layoutLocals q body) scope with
      | ok a => rw [hlast] at h; cases h
      | error err' =>
        rw [hlast] at h
        cases h
        exact .inr (ran_error hlast)

/-! ## The next render -/

theorem found_of_usable {files : Files.FileTree} {text : String}
    (h : e.Usable files (.view name) text) : e.found files name = true := by
  have hread := h.read
  rw [textOf_of_fileOf (o := .view name) rfl, readText, Files.FileTree.read] at hread
  rw [found, Files.FileTree.isFile]
  cases hfind : files.find true (e.resolver.templatePath name) with
  | error fault => rw [hfind] at hread; cases hread
  | ok a =>
    rw [hfind] at hread
    obtain ⟨place, entry⟩ := a
    cases entry with
    | file text => exact Bool.or_true _
    | _ => cases hread

/-- A view without an entry is loaded if it and the layout of its choice are usable. -/
theorem Prepares.loaded {p : Except ViewError Prepared} {text : String}
    (h : e.Prepares name locals w p v made) (hnone : w.cache.get? name = none)
    (hview : e.Usable w.files (.view name) text)
    (hlayout : ∃ text', e.Usable w.files (e.originOf (chooseLayout locals text)) text') :
    ∃ view layout, p = .ok ⟨view, some layout⟩ := by
  cases h with
  | missing hf => cases hf.symm.trans (found_of_usable hview)
  | @failed u v err made hu h =>
    rw [← hu.files] at hview hlayout
    cases h with
    | unusable hmiss h => exact absurd hview (h text)
    | stranded hmiss hview' ht hchoice h =>
      -- The text of the view is the usable one, and with it the layout is.
      obtain rfl := Except.ok.inj (hview.read.symm.trans hview'.read)
      rw [hchoice] at hlayout
      obtain ⟨text', hl⟩ := hlayout
      exact absurd hl (h text')
  | entered hu h hl => exact ⟨_, _, rfl⟩
  | @defaulted u v x entry layout made made' hu h hl hd =>
    cases h with
    | kept h => rw [hu.cache, hnone] at h; cases h
    | @stored text' entry v hmiss hview' hentry hv =>
      rw [← hu.files] at hview hlayout
      rw [hentry.byDefault_of_none hl hview.read] at hlayout
      obtain ⟨text'', hl'⟩ := hlayout
      cases hd with
      | kept h => exact ⟨_, _, rfl⟩
      | failed hmiss h => exact absurd (hv.files ▸ hl') (h text'')
      | stored => exact ⟨_, _, rfl⟩

/-! ## Renders in a row -/

section

variable (hv : e.config.viewPath ≠ "") (hon : e.config.caching = true) (hw : e.Sane w)
include hv hon hw

theorem answer_failed (herr : ((e.answer q).run w).result = .error err) :
    err.Early ∧ e.Unmarked q.logical w ((e.answer q).run w).world ∨
      (err.variant = .layoutUnavailable ∨ err.variant = .execute) ∧
        e.Completed q.logical (e.merged q) w ((e.answer q).run w).world := by
  obtain ⟨p, hp, hresult⟩ := answer_alone hv hon hw.paths q
  rw [herr] at hresult
  cases p with
  | error err' =>
    obtain rfl := Except.error.inj hresult
    exact .inl hp.unmarked.symm
  | ok p =>
    have hlate := finished_error hresult.symm
    exact .inr ⟨hlate.imp_left And.left, hp.completed (hw.enabled.trans hon)⟩

/-- A render of a name without an entry whose files are usable fails at most in the executions. -/
theorem answer_loads {text : String} (hnone : w.cache.get? q.logical = none)
    (hview : e.Usable w.files (.view q.logical) text)
    (hlayout : ∃ text', e.Usable w.files (e.originOf (chooseLayout (e.merged q) text)) text')
    (herr : ((e.answer q).run w).result = .error err) : err.variant = .execute := by
  obtain ⟨p, hp, hresult⟩ := answer_alone hv hon hw.paths q
  obtain ⟨view, layout, rfl⟩ := hp.loaded hnone hview hlayout
  rcases finished_error (hresult.symm.trans herr) with ⟨-, hl⟩ | he
  · cases hl
  · exact he

end

end Engine

open Engine

theorem ViewError.Early.ne {err : ViewError} (h : err.Early) :
    ¬ (err.variant = .layoutUnavailable ∨ err.variant = .execute) := by
  rcases h with h | h | h <;> simp [h]

/-- **A failure leaves nothing behind that stands in the way.** Renders, registrations of partials
and changes of the files may have interleaved in any way. If a render then fails, its context stays
as it is. If it fails before it executes anything, the cache stays as it is too, and at most the
path of its name is kept; if it fails later, the only new entry is a complete one for its name. So
after an early failure of a name without an entry the next render of the name, whatever else is
rendered and changed in between, gets past loading as soon as the files that it needs are usable. -/
theorem failed_render_keeps {config : Config} {r base : Registry} {e : Engine}
    {files : Files.FileTree} {tasks : List Task} {log : List Happening} {s : Sharing Task.Report}
    (hb : build config r = .ok (e, base)) (hon : e.config.caching = true)
    (h : (e.started base files tasks).Trace log s) {c c' : ViewContext} {name : String}
    {locals : Fields} {err : ViewError} {v : World} {steps : List Step}
    (hrun : (e.render c name locals).run s.world = ⟨(.error err, c'), v, steps⟩) :
    let q : Query := ⟨c.state, c.request, name, locals⟩
    c' = c ∧
      (err.Early ∧ e.Unmarked q.logical s.world v ∨
        (err.variant = .layoutUnavailable ∨ err.variant = .execute) ∧
          e.Completed q.logical (e.merged q) s.world v) ∧
      (err.Early → s.world.cache.get? q.logical = none →
        ∀ (history : List Event) (q' : Query) (text : String), q'.logical = q.logical →
          (∀ other, .render other ∈ history → other.logical ≠ q.logical) →
          let u := e.live history v
          e.Usable u.files (.view q.logical) text →
          (∃ text', e.Usable u.files (e.originOf (chooseLayout (e.merged q') text)) text') →
          ∀ err', ((e.answer q').run u).result = .error err' → err'.variant = .execute) := by
  intro q
  obtain ⟨rfl, hv, -⟩ := of_build hb
  have hsane : e.Sane s.world := (kept (K := fun _ _ => True) h trivial
    (fun _ _ _ _ _ _ _ => trivial) fun _ _ _ _ => trivial).1.1
  rw [render_run, Run.mk.injEq] at hrun
  obtain ⟨hresult, rfl, -⟩ := hrun
  have hended : c' = c ∧ ((e.answer q).run s.world).result = .error err := by
    cases hq : ((e.answer q).run s.world).result with
    | ok out => rw [hq] at hresult; cases hresult
    | error err' => rw [hq] at hresult; cases hresult; exact ⟨rfl, rfl⟩
  obtain ⟨rfl, herr⟩ := hended
  have hleft := answer_failed hv hon hsane herr
  refine ⟨rfl, hleft, ?_⟩
  intro hearly hnone history q' text hq hother u hview hlayout err' herr'
  have hmark := (hleft.resolve_right fun hlate => hearly.ne hlate.1).2
  have hsane' := hsane.answer q
  refine answer_loads hv hon (hsane'.live history) ?_ (hq ▸ hview) hlayout herr'
  rw [hq]
  exact entry_live hv hon hsane' hother (hmark.cache ▸ hnone)

/-- A view that names the layout `l`, and that layout, if it has a text. -/
def layoutFiles (layout : Option String) : Files.FileTree :=
  ⟨.directory [("views", .directory (("a.hbs", .file "{{!< l}}A") ::
    layout.toList.map fun text => ("l.hbs", .file text)))], []⟩

/-- A view whose layout is added after a render has failed for want of it. -/
theorem failed_render_keeps_for_layout :
    let e : Engine := ⟨{ viewPath := "views" }⟩
    let base := (freshRegistry {}).withBlockHelpers "block" "contentFor"
    let q : Query := { name := "a" }
    let run := (e.render {} "a" []).run (e.world base (layoutFiles none))
    let history := [Event.change (layoutFiles (some "[{{{body}}}]"))]
    run.result = (.error (.io "views/l.hbs" (.system .notFound)), {}) ∧
      run.world.cache = Cache.empty true ∧ run.world.paths = [("a", "views/a.hbs")] ∧
      (∀ err, ((e.answer q).run (e.live history run.world)).result = .error err →
        err.variant = .execute) ∧
      ((e.answer q).run (e.live history run.world)).result = .ok "[A]" := by
  intro e base q run history
  have hresult : ((e.render {} "a" []).run (e.world base (layoutFiles none))).result =
      (.error (.io "views/l.hbs" (.system .notFound)), {}) := by
    cbv
  have hpaths : ((e.render {} "a" []).run (e.world base (layoutFiles none))).world.paths =
      [("a", "views/a.hbs")] := by
    cbv
  have hout : ((e.answer q).run (e.live history
      ((e.render {} "a" []).run (e.world base (layoutFiles none))).world)).result = .ok "[A]" := by
    cbv
  have hview : e.Usable (layoutFiles (some "[{{{body}}}]")) (.view q.logical) "{{!< l}}A" :=
    ⟨by cbv, _, by cbv⟩
  have hlayout : e.Usable (layoutFiles (some "[{{{body}}}]"))
      (e.originOf (chooseLayout (e.merged q) "{{!< l}}A")) "[{{{body}}}]" := ⟨by cbv, _, by cbv⟩
  have hb : build e.config (freshRegistry {}) = .ok (e, base) := rfl
  have hrun : (e.render {} "a" []).run (e.world base (layoutFiles none)) =
      ⟨_, run.world, run.steps⟩ :=
    congrArg (fun result => (⟨result, run.world, run.steps⟩ : Run _)) hresult
  have hstart : (e.started base (layoutFiles none) []).Trace [] _ := .start
  obtain ⟨-, hleft, hnext⟩ := failed_render_keeps hb rfl hstart hrun
  have hearly : ViewError.Early (.io "views/l.hbs" (.system .notFound)) := .inr (.inl rfl)
  have hmark := (hleft.resolve_right fun hlate => hearly.ne hlate.1).2
  have hnone : (e.world base (layoutFiles none)).cache.get? q.logical = none := rfl
  exact ⟨hresult, hmark.cache, hpaths, hnext hearly hnone history q _ rfl
    (fun other h => by simp [history] at h) hview ⟨_, hlayout⟩, hout⟩

end Views
