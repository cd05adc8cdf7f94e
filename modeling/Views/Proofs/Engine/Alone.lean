import Views.Proofs.Engine.Warrant
import Views.Proofs.Precedence
import Views.Proofs.Program.Alone

/-!
# Renders alone

What the parts of a render do to the stores when nothing else is going on and there is caching. Each
part has an inductive list of the ways in which it can end, with the world that it leaves and the
templates that it has compiled: `Engine.Loaded` for a file, `Engine.Entered` for the entry of a
view, `Engine.Defaulted` for the default layout, and `Engine.Prepares` for all that comes before the
executions.
-/

set_option autoImplicit false

namespace Views

namespace Engine

open Program

variable (e : Engine)

/-! ## Growing -/

/-- A world in which more may have been compiled from its files, and nothing else has changed. -/
structure Grown (w v : World) : Prop where
  stores : ∃ registry number, v = { w with registry, number }
  held : ∀ o t, e.Held w.files w.registry o t → e.Held w.files v.registry o t

/-- A result of loading an origin alone. -/
inductive Loaded (o : Origin) (w : World) : Except ViewError Compiled → World → List Compiled → Prop
  | failed {err : ViewError} {v : World} (h : ∀ text, ¬ e.Usable w.files o text)
      (herr : err.variant = .io ∨ err.variant = .compile) (hv : e.Grown w v) :
      Loaded o w (.error err) v []
  | made {t : Compiled} {v : World} (h : ∃ text, e.Usable w.files o text)
      (ht : e.Held w.files v.registry o t) (hv : e.Grown w v) : Loaded o w (.ok t) v [t]

/-- A world in which the path of a name may be kept, and partials may be registered. -/
structure Readied (name : String) (w v : World) : Prop where
  stores : ∃ registry paths scanned, v = { w with registry, paths, scanned }
  paths : v.paths = w.paths ∨ w.paths.get? name = none ∧
    v.paths = w.paths.insert name (e.resolver.templatePath name)

/-- What comes of loading the layout of a choice; the default layout is not loaded here. -/
inductive Chosen (choice : LayoutChoice) (w : World) :
    Except ViewError (Option Compiled) → World → List Compiled → Prop
  | failed {name : String} {err : ViewError} {v : World} (hc : choice = .named name)
      (h : ∀ text, ¬ e.Usable w.files (.layout name) text)
      (herr : err.variant = .io ∨ err.variant = .compile) (hv : e.Grown w v) :
      Chosen choice w (.error err) v []
  | loaded (layout : Option Compiled) {v : World}
      (h : match choice with
        | .byDefault => layout = none
        | choice => ∃ t, layout = some t ∧ e.Held w.files v.registry (e.originOf choice) t)
      (hv : e.Grown w v) : Chosen choice w (.ok layout) v layout.toList

/-- What comes of looking for the default layout. -/
inductive Defaulted (w : World) : Option Compiled → World → List Compiled → Prop
  | kept {t : Compiled} (h : w.cache.defaultLayout? = some t) : Defaulted w (some t) w []
  | failed {v : World} (hmiss : w.cache.defaultLayout? = none)
      (h : ∀ text, ¬ e.Usable w.files (e.originOf .byDefault) text) (hv : e.Grown w v) :
      Defaulted w none v []
  | stored {t : Compiled} {v : World} (hmiss : w.cache.defaultLayout? = none)
      (h : ∃ text, e.Usable w.files (e.originOf .byDefault) text)
      (ht : e.Held w.files v.registry (e.originOf .byDefault) t) (hv : e.Grown w v) :
      Defaulted w (some t) { v with cache := v.cache.setDefaultLayout t } [t]

/-- An entry with the template of a view and the layout that the view and the variables choose. -/
structure Complete (files : Files.FileTree) (r : Registry) (name : String) (locals : Fields)
    (entry : CacheEntry) : Prop where
  view : e.Held files r (.view name) entry.template
  layout : ∀ text, e.textOf files (.view name) = .ok text →
    match chooseLayout locals text with
    | .byDefault => entry.layout = none
    | choice => ∃ t, entry.layout = some t ∧ e.Held files r (e.originOf choice) t

/-- What comes of looking for the entry of a view. -/
inductive Entered (name : String) (locals : Fields) (w : World) :
    Except ViewError CacheEntry → World → List Compiled → Prop
  | kept {entry : CacheEntry} (h : w.cache.get? name = some entry) :
      Entered name locals w (.ok entry) w []
  /-- The view could not be loaded. -/
  | unusable {err : ViewError} {v : World} (hmiss : w.cache.get? name = none)
      (h : ∀ text, ¬ e.Usable w.files (.view name) text)
      (herr : err.variant = .io ∨ err.variant = .compile) (hv : e.Grown w v) :
      Entered name locals w (.error err) v []
  /-- The view was compiled, but the layout that it needs could not be loaded. -/
  | stranded {text layout : String} {t : Compiled} {err : ViewError} {v : World}
      (hmiss : w.cache.get? name = none) (hview : e.Usable w.files (.view name) text)
      (ht : e.Held w.files v.registry (.view name) t)
      (hchoice : chooseLayout locals text = .named layout)
      (h : ∀ text, ¬ e.Usable w.files (.layout layout) text)
      (herr : err.variant = .io ∨ err.variant = .compile) (hv : e.Grown w v) :
      Entered name locals w (.error err) v [t]
  | stored {text : String} {entry : CacheEntry} {v : World} (hmiss : w.cache.get? name = none)
      (hview : e.Usable w.files (.view name) text)
      (hentry : e.Complete w.files v.registry name locals entry) (hv : e.Grown w v) :
      Entered name locals w (.ok entry) { v with cache := v.cache.insert name entry }
        (entry.template :: entry.layout.toList)

/-- What comes of preparing a render. -/
inductive Prepares (name : String) (locals : Fields) (w : World) :
    Except ViewError Prepared → World → List Compiled → Prop
  | missing (hf : e.found w.files name = false) :
      Prepares name locals w (.error (.missingTemplate (e.resolver.templatePath name))) w []
  | failed {u v : World} {err : ViewError} {made : List Compiled} (hu : e.Readied name w u)
      (h : e.Entered name locals u (.error err) v made) : Prepares name locals w (.error err) v made
  | entered {u v : World} {entry : CacheEntry} {layout : Compiled} {made : List Compiled}
      (hu : e.Readied name w u) (h : e.Entered name locals u (.ok entry) v made)
      (hlayout : entry.layout = some layout) :
      Prepares name locals w (.ok ⟨entry.template, some layout⟩) v made
  | defaulted {u v x : World} {entry : CacheEntry} {layout : Option Compiled}
      {made made' : List Compiled} (hu : e.Readied name w u)
      (h : e.Entered name locals u (.ok entry) v made) (hnone : entry.layout = none)
      (hlayout : e.Defaulted v layout x made') :
      Prepares name locals w (.ok ⟨entry.template, layout⟩) x (made ++ made')

variable {e} {w v u : World} {o : Origin}

namespace Grown

theorem refl (w : World) : e.Grown w w := ⟨⟨w.registry, w.number, rfl⟩, fun _ _ h => h⟩

theorem files (h : e.Grown w v) : v.files = w.files := by
  obtain ⟨⟨registry, number, rfl⟩, -⟩ := h
  rfl

theorem cache (h : e.Grown w v) : v.cache = w.cache := by
  obtain ⟨⟨registry, number, rfl⟩, -⟩ := h
  rfl

theorem paths (h : e.Grown w v) : v.paths = w.paths := by
  obtain ⟨⟨registry, number, rfl⟩, -⟩ := h
  rfl

theorem trans (h : e.Grown w v) (h' : e.Grown v u) : e.Grown w u := by
  obtain ⟨⟨registry, number, rfl⟩, hheld⟩ := h
  obtain ⟨⟨registry', number', rfl⟩, hheld'⟩ := h'
  exact ⟨⟨registry', number', rfl⟩, fun o t ht => hheld' o t (hheld o t ht)⟩

theorem draw (w : World) (number : Nat) : e.Grown w { w with number } :=
  ⟨⟨w.registry, number, rfl⟩, fun _ _ h => h⟩

end Grown

/-- What is loaded after a world has grown is loaded from that world. -/
theorem Loaded.of_grown {r : Except ViewError Compiled} {made : List Compiled} (hw : e.Grown w u)
    (h : e.Loaded o u r v made) : e.Loaded o w r v made := by
  cases h with
  | failed h herr hv => exact .failed (hw.files ▸ h) herr (hw.trans hv)
  | made h ht hv => exact .made (hw.files ▸ h) (hw.files ▸ ht) (hw.trans hv)

namespace Readied

variable {name : String}

theorem refl (name : String) (w : World) : e.Readied name w w :=
  ⟨⟨w.registry, w.paths, w.scanned, rfl⟩, .inl rfl⟩

theorem files (h : e.Readied name w v) : v.files = w.files := by
  obtain ⟨⟨registry, paths, scanned, rfl⟩, -⟩ := h
  rfl

theorem cache (h : e.Readied name w v) : v.cache = w.cache := by
  obtain ⟨⟨registry, paths, scanned, rfl⟩, -⟩ := h
  rfl

theorem rescanned (h : e.Readied name w v) (h' : PartialSource.Rescanned v u) :
    e.Readied name w u := by
  obtain ⟨⟨registry, paths, scanned, rfl⟩, hpaths⟩ := h
  obtain ⟨registry', scanned', -, rfl⟩ := h'
  exact ⟨⟨registry', paths, scanned', rfl⟩, hpaths⟩

end Readied

theorem Loaded.usable {t : Compiled} {made : List Compiled} (h : e.Loaded o w (.ok t) v made) :
    ∃ text, e.Usable w.files o text := by
  cases h with
  | made h => exact h

/-- Looking for an entry changes the cache only where it has found nothing. -/
theorem Entered.leaves {name : String} {locals : Fields} {r : Except ViewError CacheEntry}
    {made : List Compiled} (h : e.Entered name locals w r v made) :
    ∃ x, e.Grown w x ∧ (v = x ∨ w.cache.get? name = none ∧
      ∃ entry, v = { x with cache := x.cache.insert name entry }) := by
  cases h with
  | kept h => exact ⟨w, .refl w, .inl rfl⟩
  | unusable hmiss h herr hv => exact ⟨v, hv, .inl rfl⟩
  | stranded hmiss hview ht hchoice h herr hv => exact ⟨v, hv, .inl rfl⟩
  | stored hmiss hview hentry hv => exact ⟨_, hv, .inr ⟨hmiss, _, rfl⟩⟩

theorem Entered.files {name : String} {locals : Fields} {r : Except ViewError CacheEntry}
    {made : List Compiled} (h : e.Entered name locals w r v made) : v.files = w.files := by
  obtain ⟨x, hx, rfl | ⟨-, entry, rfl⟩⟩ := h.leaves
  · exact hx.files
  · exact hx.files

theorem Entered.enabled {name : String} {locals : Fields} {r : Except ViewError CacheEntry}
    {made : List Compiled} (h : e.Entered name locals w r v made) :
    v.cache.enabled = w.cache.enabled := by
  obtain ⟨x, hx, rfl | ⟨-, entry, rfl⟩⟩ := h.leaves
  · rw [hx.cache]
  · exact (Cache.enabled_insert ..).trans (by rw [hx.cache])

/-- The setting of an engine of whose stores nothing is known. -/
def settingOf (e : Engine) (files : Files.FileTree) (hv : e.config.viewPath ≠ "") : Setting where
  engine := e
  base := Registry.new false false
  files := files
  governed := fun _ => False
  chosen := fun _ => none
  cached := fun _ => False
  valid := hv
  plain := Setting.plain_of_ungoverned

section

variable (hv : e.config.viewPath ≠ "") (hon : e.config.caching = true)
include hv hon

/-- Compiling the text of an origin gives what a bigger registry then holds, or fails. -/
theorem compile_alone {text : String} (ht : e.textOf w.files o = .ok text) (n : Nat) :
    (Program.request (.compile (e.keyFor o (some n)) text)).Alone w (e.Loaded o w) := by
  have hnumbered : e.Numbered (some n) := hon.symm
  have hheld (t : Compiled) (hc : compiled (e.keyFor o (some n)) text = .ok t) :
      e.Held w.files (w.perform (.compile (e.keyFor o (some n)) text)).2.registry o t :=
    Setting.held_compile (c := e.settingOf w.files hv) hnumbered ht hc
      fun hoff => by cases hon.symm.trans hoff
  refine .ask (.done ?_)
  rw [List.append_nil]
  rw [perform_compile] at hheld ⊢
  cases hc : Template.elementsOf text false with
  | error err =>
    rw [compiled, hc]
    refine .failed (fun text' h' => ?_) (.inr rfl) (.refl w)
    obtain ⟨hread, elements, hc'⟩ := h'
    obtain rfl := Except.ok.inj (ht.symm.trans hread)
    cases hc.symm.trans hc'
  | ok elements =>
    rw [hc] at hheld
    have hcompiled : compiled (e.keyFor o (some n)) text =
        .ok ⟨e.keyFor o (some n), e.keyFor o (some n)⟩ := by
      rw [compiled, hc]
    rw [hcompiled]
    exact .made ⟨text, ht, elements, hc⟩ (hheld _ hcompiled) ⟨⟨_, w.number, rfl⟩, fun o' t' h' =>
      Setting.held_define_key (c := e.settingOf w.files hv) h' hnumbered ht hc⟩

/-! ## Loading -/

omit hv in
theorem loadFile_of_caching (kind : FileKind) (path : String) :
    e.loadFile kind path = Program.bind (Program.request (.read path)) (Attempt.after fun text =>
      Program.bind (Program.request .nextNumber) fun n =>
        Program.bind (Program.request (.compile (keyOf kind path (some n)) text))
          (Attempt.after fun t => Program.done (.ok (t, text)))) := by
  rw [loadFile_eq]
  refine congrArg _ (congrArg _ (funext fun text => ?_))
  rw [loadText_eq, registerReferenced, if_pos hon, compileKey, if_pos hon]
  rfl

theorem loadFile_alone {kind : FileKind} {path : String} (ho : e.fileOf o = some (kind, path)) :
    Program.Alone w (e.loadFile kind path) fun r v made =>
      e.Loaded o w (r.map Prod.fst) v made ∧ ∀ t text, r = .ok (t, text) →
        e.Usable w.files o text := by
  have hread : (w.perform (.read path)).1 = e.textOf w.files o := (textOf_of_fileOf ho).symm
  rw [loadFile_of_caching hon]
  refine .attempt (.ask (.done ?_))
  rw [hread]
  cases ht : e.textOf w.files o with
  | error err =>
    refine ⟨.failed (fun text h => ?_) (.inl ?_) (.refl w), fun t text h => by cases h⟩
    · cases ht.symm.trans h.read
    · rw [textOf_of_fileOf ho, readText] at ht
      cases hr : w.files.read path with
      | ok text => rw [hr] at ht; cases ht
      | error fault => rw [hr] at ht; cases ht; rfl
  | ok text =>
    refine .bind (.ask (.done ?_))
    show Program.Alone { w with number := w.number + 1 } (Program.bind
      (Program.request (.compile (keyOf kind path (some w.number)) text)) _) _
    rw [show keyOf kind path (some w.number) = e.keyFor o (some w.number) by rw [keyFor, ho]]
    have hcompile := compile_alone hv hon (w := { w with number := w.number + 1 }) ht w.number
    refine .attempt (hcompile.mono fun r v made h => ?_)
    have hload := h.of_grown (.draw w (w.number + 1))
    cases r with
    | error err => exact ⟨hload, fun t text h => by cases h⟩
    | ok t =>
      refine .done ⟨(List.append_nil made).symm ▸ hload, ?_⟩
      rintro t' text' ⟨⟩
      obtain ⟨text', husable⟩ := hload.usable
      obtain rfl := Except.ok.inj (ht.symm.trans husable.read)
      exact husable

/-! ## Layouts -/

theorem loadLayout_alone (name : String) :
    Program.Alone w (e.loadLayout name) (e.Loaded (.layout name) w) := by
  rw [loadLayout_eq]
  refine .attempt ((loadFile_alone hv hon (o := .layout name) rfl).mono fun r v made h => ?_)
  cases r with
  | error err => exact h.1
  | ok a => exact .done ((List.append_nil made).symm ▸ h.1)

theorem identityLayout_alone : Program.Alone w identityLayout (e.Loaded .identity w) :=
  compile_alone hv hon (o := .identity) rfl 0

theorem layoutFor_alone (choice : LayoutChoice) :
    Program.Alone w (e.layoutFor choice) (e.Chosen choice w) := by
  cases choice with
  | byDefault => exact .done (.loaded none rfl (.refl w))
  | identity =>
    rw [layoutFor, Attempt.map_eq]
    refine .bind ((identityLayout_alone hv hon).mono fun r v made h => .done ?_)
    cases h with
    -- The text of the identity layout compiles.
    | failed h => exact absurd usable_identity (h _)
    | made _ ht hw => exact .loaded (some _) ⟨_, rfl, ht⟩ hw
  | named name =>
    rw [layoutFor, Attempt.map_eq]
    refine .bind ((loadLayout_alone hv hon name).mono fun r v made h => .done ?_)
    cases h with
    | failed h herr hw => exact .failed rfl h herr hw
    | made _ ht hw => exact .loaded (some _) ⟨_, rfl, ht⟩ hw

theorem loadDefault_alone :
    Program.Alone w (match e.config.defaultLayoutName? with
      | some name => e.loadLayout name
      | none => identityLayout : Attempt Compiled) (e.Loaded (e.originOf .byDefault) w) := by
  unfold originOf
  cases e.config.defaultLayoutName? with
  | some name => exact loadLayout_alone hv hon name
  | none => exact identityLayout_alone hv hon

theorem defaultLayout_alone : e.defaultLayout.Alone w (e.Defaulted w) := by
  unfold defaultLayout
  refine .bind (.ask (.done ?_))
  rw [World.perform_recallDefault]
  cases hknown : w.cache.defaultLayout? with
  | some t => exact .done (.kept hknown)
  | none =>
    refine .bind ((loadDefault_alone hv hon).mono fun r v made h => ?_)
    cases h with
    | failed h herr hw => exact .done (.failed hknown h hw)
    | @made t v h ht hw => exact .ask (.done (.stored hknown h ht hw))

/-! ## Entries -/

theorem entryFor_alone (name : String) (locals : Fields) :
    Program.Alone w (e.entryFor name (e.resolver.templatePath name) locals)
      (e.Entered name locals w) := by
  rw [entryFor_eq]
  refine .ask ?_
  rw [World.perform_recallEntry]
  cases hmiss : w.cache.get? name with
  | some entry => exact .done (.kept hmiss)
  | none =>
    refine .attempt ((loadFile_alone hv hon (o := .view name) rfl).mono fun r v made h => ?_)
    obtain ⟨hload, husable⟩ := h
    cases r with
    | error err =>
      cases hload with
      | failed h herr hw => exact .unusable hmiss h herr hw
    | ok a =>
      obtain ⟨t, text⟩ := a
      have hview := husable t text rfl
      cases hload with
      | made _ ht hw =>
        refine .attempt ((layoutFor_alone hv hon _).mono fun r u made h => ?_)
        cases h with
        | failed hc h herr hu =>
          exact .stranded hmiss hview (hw.files ▸ hu.held _ _ (hw.files ▸ ht)) hc (hw.files ▸ h)
            herr (hw.trans hu)
        | @loaded layout u h hu =>
          refine .ask (.done ?_)
          have hentry : e.Complete w.files u.registry name locals ⟨t, layout⟩ := by
            refine ⟨hw.files ▸ hu.held _ _ (hw.files ▸ ht), fun text' htext => ?_⟩
            obtain rfl := Except.ok.inj (hview.read.symm.trans htext)
            exact hw.files ▸ h
          show e.Entered name locals w (.ok ⟨t, layout⟩) _ (t :: (layout.toList ++ []))
          rw [List.append_nil]
          exact .stored hmiss hview hentry (hw.trans hu)

/-! ## Preparing -/

omit hv in
theorem resolve_alone {name : String} (hpaths : ∀ path, w.paths.get? name = some path →
    path = e.resolver.templatePath name) :
    (e.resolver.resolve name).Alone w fun r v made => made = [] ∧
      (r = none ∧ v = w ∧ e.found w.files name = false ∨
        r = some (e.resolver.templatePath name) ∧ e.Readied name w v) := by
  unfold Resolver.resolve
  by_cases ha : Files.isAbsolute name = true
  · rw [if_pos ha, Setting.templatePath_of_isAbsolute e ha]
    exact .done ⟨rfl, .inr ⟨rfl, .refl name w⟩⟩
  · rw [if_neg ha]
    refine .bind (.ask (.done ?_))
    rw [World.perform_recallPath]
    cases hp : w.paths.get? name with
    | some path =>
      obtain rfl := hpaths path hp
      exact .done ⟨rfl, .inr ⟨rfl, .refl name w⟩⟩
    | none =>
      refine .bind (.ask (.done ?_))
      show Program.Alone w (if w.files.isFile (e.resolver.templatePath name) = true then _ else _) _
      split
      · rename_i hf
        rw [if_pos (show e.resolver.caching = true from hon)]
        exact .bind (.ask (.done (.done ⟨rfl, .inr ⟨rfl, ⟨_, _, _, rfl⟩, .inr ⟨hp, rfl⟩⟩⟩)))
      · rename_i hf
        refine .done ⟨rfl, .inl ⟨rfl, rfl, ?_⟩⟩
        rw [found, Bool.eq_false_iff.2 ha, Bool.eq_false_iff.2 hf]
        rfl

omit hv hon in
theorem ensureScanned_alone :
    e.partials.ensureScanned.Alone w fun _ v made => made = [] ∧ PartialSource.Rescanned w v := by
  have hkeeps : e.partials.ensureScanned.Keeps (fun _ _ => True)
      (fun _ r => ∀ key text, r ≠ .compile key text) (fun _ _ => True) [] :=
    e.partials.ensureScanned_keeps (fun _ _ _ => ⟨nofun, fun _ => trivial⟩)
      (fun _ _ _ _ => ⟨nofun, fun _ => trivial⟩) (fun _ _ _ _ => ⟨nofun, fun _ => trivial⟩)
      (fun _ _ => ⟨nofun, fun _ => trivial⟩) (fun _ _ => ⟨nofun, fun _ => trivial⟩) trivial
  have hsteps := hkeeps.run_steps w
  refine ⟨List.filterMap_eq_nil_iff.2 fun step hs => ?_, e.partials.ensureScanned_rescanned w⟩
  have hcompile := hsteps step hs
  obtain ⟨r, answer⟩ := step
  cases r with
  | compile key text => exact absurd rfl (hcompile key text)
  | _ => rfl

/-- **What comes of preparing a render** when nothing else is going on. -/
theorem prepare_alone {name : String} (hpaths : ∀ path, w.paths.get? name = some path →
    path = e.resolver.templatePath name) (locals : Fields) :
    Program.Alone w (e.prepare name locals) (e.Prepares name locals w) := by
  rw [prepare_eq]
  refine .bind ((resolve_alone hon hpaths).mono fun r v made h => ?_)
  obtain ⟨rfl, ⟨rfl, rfl, hf⟩ | ⟨rfl, hv'⟩⟩ := h
  · exact .done (.missing hf)
  · refine .bind (ensureScanned_alone.mono fun _ u made h => ?_)
    obtain ⟨rfl, hscan⟩ := h
    have hu := hv'.rescanned hscan
    refine .attempt ((entryFor_alone hv hon name locals).mono fun r x made h => ?_)
    cases r with
    | error err => exact .failed hu h
    | ok entry =>
      refine .bind ?_
      cases hl : entry.layout with
      | some layout =>
        refine .done (.done ?_)
        show e.Prepares name locals w (.ok ⟨entry.template, some layout⟩) x (made ++ [])
        rw [List.append_nil]
        exact .entered hu h hl
      | none =>
        refine (defaultLayout_alone hv hon).mono fun layout y made' h' => .done ?_
        show e.Prepares name locals w (.ok ⟨entry.template, layout⟩) y (made ++ (made' ++ []))
        rw [List.append_nil]
        exact .defaulted hu h hl h'

end

/-! ## Executing -/

variable {q : Query}

theorem execute_recalls (t : Compiled) (locals : Fields) (scope : Scope) :
    Recalls w (execute t locals scope) (w.registry.ran t locals scope) := by
  rw [execute_eq]
  exact .ask (World.perform_execute w t locals scope) id (.done _)

theorem finish_recalls (p : Prepared) :
    Recalls w (e.finish q.logical (e.merged q) q.request p)
      (e.finished q p w.registry w.registry) := by
  rw [finish_eq]
  refine .bind (execute_recalls _ _ _) ?_
  cases hran : w.registry.ran p.view (e.merged q) (Scope.withData (e.scopeData q.request)) with
  | error err => exact finished_of_error hran ▸ .done _
  | ok a =>
    obtain ⟨body, scope⟩ := a
    rw [finished_of_ok hran]
    cases p.layout with
    | none => exact .done _
    | some layout =>
      refine .bind (execute_recalls layout (e.layoutLocals q body) scope) ?_
      dsimp only
      cases w.registry.ran layout (e.layoutLocals q body) scope <;> exact .done _

/-- **What comes of a render** when nothing else is going on: what comes of preparing it, and of
executing what was prepared. -/
theorem answer_alone (hv : e.config.viewPath ≠ "") (hon : e.config.caching = true)
    (hpaths : ∀ name path, w.paths.get? name = some path →
      path = e.resolver.templatePath name) (q : Query) :
    (e.answer q).Alone w fun r v made => ∃ p, e.Prepares q.logical (e.merged q) w p v made ∧
      r = p.bind fun p => e.finished q p v.registry v.registry := by
  rw [answer_bind]
  refine .attempt ((prepare_alone hv hon (hpaths q.logical) (e.merged q)).mono fun p v made h => ?_)
  cases p with
  | error err => exact ⟨_, h, rfl⟩
  | ok p => exact (finish_recalls p).alone ⟨_, (List.append_nil made).symm ▸ h, rfl⟩

end Engine

end Views
