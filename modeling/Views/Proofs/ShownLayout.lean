import Views.Cli.Run
import Views.Proofs.Engine.Lays

/-!
# The layout that is shown

The command line shows which layout a view has, without rendering it: it reads the view and decides
as a render would that has no variables. A render without variables uses the layout that is shown,
as long as the variables of the configuration choose none (`Cli.shown_layout_used`); if they do, the
command does not know of it (`Cli.shown_layout_not_used`).
-/

set_option autoImplicit false

namespace Views

open Program

/-! ## The command -/

open Files (FileTree)

/-- On a file tree requests are answered as in a world, and the files stay as they are. -/
theorem Stores.perform_fileTree (s : Stores) (r : Request) (files : FileTree) :
    (s.perform FileTree.perform r).run files =
      (((World.perform ⟨s, files⟩ r).1, (World.perform ⟨s, files⟩ r).2.toStores), files) := by
  cases r with
  | compile key source =>
    simp only [Stores.perform, World.perform]
    cases s.registry.compile key source <;> rfl
  | registerPartial name source =>
    simp only [Stores.perform, World.perform]
    cases s.registry.registerPartial name source <;> rfl
  | _ => rfl

theorem Program.runOn_fileTree {α : Type} (p : Program α) (s : Stores) (files : FileTree) :
    (p.runOn FileTree.perform s).run files =
      (((p.run ⟨s, files⟩).result, (p.run ⟨s, files⟩).world.toStores), files) := by
  induction p generalizing s with
  | done a => rfl
  | ask r next ih =>
    have hfiles : (World.perform ⟨s, files⟩ r).2.files = files := World.files_perform ⟨s, files⟩ r
    rw [Program.runOn, StateT.run_bind, Stores.perform_fileTree, run_ask]
    show ((next _).runOn FileTree.perform (World.perform ⟨s, files⟩ r).2.toStores).run files = _
    rw [ih]
    generalize World.perform ⟨s, files⟩ r = answered at hfiles ⊢
    obtain ⟨answer, w⟩ := answered
    obtain rfl := hfiles
    rfl

namespace Cli

/-- The file of the layout that is shown. -/
def ShownLayout.path? : ShownLayout → Option String
  | marked _ path => some path
  | configured _ path => some path
  | absent => none

variable {e : Engine} {config : Config} {base : Registry} {files : FileTree} {w : World}

/-- The layout is shown that the text of the view leads to. -/
theorem layoutOf_run {name : String} {shown : ShownLayout}
    (h : ((layoutOf e name).run w).result = .ok shown) : ∃ file source,
      ((e.resolver.resolve name).run w).result = some file ∧
        Engine.readText w.files file = .ok source ∧ shown = layoutOfText e source := by
  rw [layoutOf, Program.bind_eq, run_bind] at h
  have hfiles := Engine.files_run (e.resolver.resolve name) w
  generalize (e.resolver.resolve name).run w = resolved at hfiles h ⊢
  obtain ⟨found, v, steps⟩ := resolved
  cases found with
  | none => cases h
  | some file =>
    rw [← show v.files = w.files from hfiles]
    simp only [Program.bind_eq] at h
    rw [run_bind, request_run,
      show v.perform (.read file) = (Engine.readText v.files file, v) from rfl] at h
    cases hsource : Engine.readText v.files file with
    | error err => rw [hsource] at h; cases h
    | ok source =>
      rw [hsource] at h
      exact ⟨file, source, rfl, hsource, (Except.ok.inj h).symm⟩

theorem run_layout (hb : Engine.build config (Engine.freshRegistry config.templateOptions) =
      .ok (e, base)) {name text : String} {files' : FileTree}
    (h : (Command.run FileTree.perform config (.layout name)).run files = (.ok text, files')) :
    ∃ shown, ((layoutOf e name).run (e.world base files)).result = .ok shown ∧
      text = shown.text := by
  have hrun : (Command.run FileTree.perform config (.layout name)).run files =
      ((((layoutOf e name).run (e.world base files)).result.map ShownLayout.text), files) := by
    obtain ⟨rfl, -, -⟩ := Engine.of_build hb
    rw [Command.run, withEngine, hb]
    show (Program.runOn FileTree.perform _ _ >>= _ : StateM FileTree _).run files = _
    rw [StateT.run_bind, Program.runOn_fileTree]
    show ((Program.run _ (e.world base files)).result, files) = _
    rw [Program.bind_eq, run_bind]
    rfl
  rw [hrun] at h
  cases hshown : ((layoutOf e name).run (e.world base files)).result with
  | error report => rw [hshown] at h; cases h
  | ok shown =>
    rw [hshown] at h
    cases h
    exact ⟨shown, rfl, rfl⟩

theorem renderText_eq (name : String) (data : RenderData) :
    let c : ViewContext := { state := data.state, request := data.request, engine := some e }
    renderText e name data none = Program.bind
      (Program.bind (e.render c name data.locals) fun r => .done (r.1.map fun () => r.2)) fun
      | .ok c => .done (.ok (c.body.getD ""))
      | .error err => .done (.error (.context ("Failed to render " ++ name) err.report)) := by
  intro c
  show Program.bind (Program.bind (e.render c name data.locals) _) _ = _
  congr

/-- A render on the command line makes the steps of a render. -/
theorem renderText_steps (name : String) (data : RenderData) :
    ((renderText e name data none).run w).steps =
      ((e.answer ⟨data.state, data.request, name, data.locals⟩).run w).steps := by
  rw [renderText_eq, run_bind, run_bind, Engine.render_run]
  cases ((e.answer ⟨data.state, data.request, name, data.locals⟩).run w).result <;>
    simp [ViewContext.ended, Except.map]

theorem ofTexts_data {request : Option String} {data : RenderData}
    (h : RenderData.ofTexts none none request = .ok data) : data.locals = [] ∧ data.state = [] := by
  cases request with
  | none => cases h; exact ⟨rfl, rfl⟩
  | some text =>
    change (readJson text "request").bind (fun value => .ok ⟨[], [], value⟩) = .ok data at h
    cases hv : readJson text "request" with
    | error report => rw [hv] at h; cases h
    | ok value => rw [hv] at h; cases h; exact ⟨rfl, rfl⟩

theorem chooseLayout_marked {locals : Fields} (h : ∀ v, Table.get? locals "layout" = some v →
      v ≠ .bool false ∧ ∀ name, v ≠ .string name) (source : String) :
    Engine.chooseLayout locals source =
      match Markers.layoutName? source with
      | some name => .named name
      | none => .byDefault := by
  rw [Engine.chooseLayout]
  split
  · rename_i hv
    exact absurd rfl (h _ hv).1
  · rename_i hv
    exact absurd rfl ((h _ hv).2 _)
  · rfl

/-- What the text of a view leads to is what a render without variables chooses. -/
theorem layoutOfText_path? (h : ∀ v, Table.get? e.config.locals "layout" = some v →
      v ≠ .bool false ∧ ∀ name, v ≠ .string name) (source : String) :
    (layoutOfText e source).path? = (e.nameOf (Engine.chooseLayout e.config.locals source)).map
      e.resolver.layoutPath := by
  rw [chooseLayout_marked h, layoutOfText]
  cases Markers.layoutName? source with
  | some name => rfl
  | none =>
    show ShownLayout.path? _ = e.config.defaultLayoutName?.map _
    cases e.config.defaultLayoutName? <;> rfl

/-- A line with an arrow is not the line of no layout. -/
theorem ShownLayout.text_eq_absent {shown : ShownLayout} :
    shown.text = "(none)\n" ↔ shown.path? = none := by
  have harrow (a b : String) : a ++ b ++ "\n" = "(none)\n" → '>' ∉ a.toList := by
    intro h hm
    have hmem : '>' ∈ ("(none)\n" : String).toList := by
      rw [← h]
      simp [hm]
    exact absurd hmem (by decide)
  cases shown with
  | absent => exact iff_of_true rfl rfl
  | marked name path => exact iff_of_false (fun h => harrow _ path h (by simp)) nofun
  | configured name path => exact iff_of_false (fun h => harrow _ path h (by simp)) nofun

/-- **The layout that is shown is the one that a render uses**, if the variables of the
configuration choose none: once a render without variables has compiled the view it reads the file
that is shown, and compiles and executes what it reads there; no layout is shown iff it reads
nothing more and uses the layout that writes the body alone. -/
theorem shown_layout_used
    (hb : Engine.build config (Engine.freshRegistry config.templateOptions) = .ok (e, base))
    (hlocals : ∀ v, Table.get? config.locals "layout" = some v →
      v ≠ .bool false ∧ ∀ name, v ≠ .string name)
    {name text : String} {request : Option String} {data : RenderData} {files' : FileTree}
    (hshown : (Command.run FileTree.perform config (.layout name)).run files = (.ok text, files'))
    (hdata : RenderData.ofTexts none none request = .ok data)
    {before after : List Step} {path source : String} {i : Option Nat} {view : Compiled}
    (hsteps : ((renderText e name data none).run (e.world base files)).steps =
      before ++ ⟨.compile (Engine.keyOf .view path i) source, .ok view⟩ :: after) :
    ∃ shown : ShownLayout, text = shown.text ∧ e.Lays view shown.path? after ∧
      (text = "(none)\n" ↔ readings after = [] ∧ ∃ t,
        (⟨.compile Engine.identityKey Engine.identitySource, .ok t⟩ : Step) ∈ after) := by
  obtain ⟨shown, hrun, rfl⟩ := run_layout hb hshown
  obtain ⟨hl, hs⟩ := ofTexts_data hdata
  obtain ⟨rfl, -, -⟩ := Engine.of_build hb
  rw [renderText_steps, hl, hs] at hsteps
  let q : Query := ⟨[], data.request, name, []⟩
  have hlogical : q.logical = name := by
    show Engine.logicalName [] name = name
    rw [Engine.logicalName]
    split
    · rfl
    · exact String.empty_append
  have hempty (cached : Bool) : (Cache.empty cached).get? q.logical = none ∧
      (Cache.empty cached).defaultLayout? = none := by
    cases cached <;> exact ⟨rfl, rfl⟩
  obtain ⟨file, w', hfile, hread, hw', rfl⟩ := Engine.answer_concluded (q := q)
    (hempty _).1 (hempty _).2 hsteps
  obtain ⟨file', source', hfile', hread', rfl⟩ := layoutOf_run hrun
  -- Both have found the same file, and so the same text.
  rw [hlogical, hfile'] at hfile
  obtain rfl := Option.some.inj hfile
  obtain rfl := Except.ok.inj (hread'.symm.trans hread)
  have hlays := Engine.conclude_lays (e := e) q view source' hw'
  rw [show e.merged q = e.config.locals from rfl, ← layoutOfText_path? hlocals] at hlays
  refine ⟨_, rfl, hlays, ShownLayout.text_eq_absent.trans ⟨fun hnone => ?_, fun hnone => ?_⟩⟩
  · exact ⟨by simpa [hnone, Engine.ReadFor] using hlays.reads, hlays.identity hnone⟩
  · cases hp : (layoutOfText e source').path? with
    | none => rfl
    | some path =>
      rw [hp] at hlays
      obtain ⟨rest, hrest, -⟩ := hlays.reads
      cases hrest.symm.trans hnone.1

/-- What a step compiles: the key, the text and the template. -/
def compilation? : Step → Option (String × String × Compiled)
  | ⟨.compile key source, .ok t⟩ => some (key, source, t)
  | _ => none

theorem eq_of_compilation? {step : Step} {key source : String} {t : Compiled}
    (h : compilation? step = some (key, source, t)) : step = ⟨.compile key source, .ok t⟩ := by
  obtain ⟨r, answer⟩ := step
  cases r with
  | compile key' source' =>
    cases answer with
    | error err => cases h
    | ok t' => cases h; rfl
  | _ => cases h

/-- A view without a marker, and a default layout. -/
def framedFiles : FileTree :=
  ⟨.directory [("views", .directory [("a.hbs", .file "V"),
    ("main.hbs", .file "[{{{body}}}]")])], []⟩

/-- The default layout is shown, and used. -/
theorem shown_layout_used_by_default :
    let config : Config := { viewPath := "views", defaultLayout := some "main" }
    let e : Engine := ⟨config⟩
    let base := (Engine.freshRegistry {}).withBlockHelpers "block" "contentFor"
    let data : RenderData := ⟨[], [], .null⟩
    let steps := ((renderText e "a" data none).run (e.world base framedFiles)).steps
    (Command.run FileTree.perform config (.layout "a")).run framedFiles =
        (.ok "main (default) -> views/main.hbs\n", framedFiles) ∧
      ∃ before view after, steps = before ++
          ⟨.compile (Engine.keyOf .view "views/a.hbs" (some 0)) "V", .ok view⟩ :: after ∧
        ∃ shown : ShownLayout, shown.text = "main (default) -> views/main.hbs\n" ∧
          e.Lays view shown.path? after := by
  intro config e base data steps
  have hshown : (Command.run FileTree.perform config (.layout "a")).run framedFiles =
      (.ok "main (default) -> views/main.hbs\n", framedFiles) := by
    cbv
  have hcompiled : ((renderText e "a" data none).run
      (e.world base framedFiles)).steps.filterMap compilation? =
      [("view::views/a.hbs#0", "V", ⟨"view::views/a.hbs#0", "view::views/a.hbs#0"⟩),
        ("layout::views/main.hbs#1", "[{{{body}}}]",
          ⟨"layout::views/main.hbs#1", "layout::views/main.hbs#1"⟩)] := by
    cbv
  obtain ⟨step, hm, hstep⟩ := List.mem_filterMap.1 (hcompiled ▸ List.mem_cons_self)
  obtain rfl := eq_of_compilation? hstep
  obtain ⟨before, after, hsteps⟩ := List.append_of_mem hm
  rw [show "view::views/a.hbs#0" = Engine.keyOf .view "views/a.hbs" (some 0) by cbv] at hsteps
  have hb : Engine.build config (Engine.freshRegistry config.templateOptions) = .ok (e, base) := rfl
  have hdata : RenderData.ofTexts none none none = .ok data := rfl
  have hlocals : ∀ v, Table.get? config.locals "layout" = some v →
      v ≠ .bool false ∧ ∀ name, v ≠ .string name := by
    intro v hv
    cases hv
  obtain ⟨shown, htext, hlays, -⟩ := shown_layout_used hb hlocals hshown hdata hsteps
  exact ⟨hshown, before, _, after, hsteps, shown, htext.symm, hlays⟩

/-- With a layout among the variables of the configuration the default layout is shown and not
used. -/
theorem shown_layout_not_used :
    let config : Config :=
      { viewPath := "views", defaultLayout := some "main", locals := [("layout", .bool false)] }
    let e : Engine := ⟨config⟩
    let base := (Engine.freshRegistry {}).withBlockHelpers "block" "contentFor"
    let run := (renderText e "a" ⟨[], [], .null⟩ none).run (e.world base framedFiles)
    Engine.build config (Engine.freshRegistry config.templateOptions) = .ok (e, base) ∧
      (Command.run FileTree.perform config (.layout "a")).run framedFiles =
        (.ok "main (default) -> views/main.hbs\n", framedFiles) ∧
      run.steps.filterMap compilation? =
        [("view::views/a.hbs#0", "V", ⟨"view::views/a.hbs#0", "view::views/a.hbs#0"⟩),
          (Engine.identityKey, Engine.identitySource, ⟨Engine.identityKey, Engine.identityKey⟩)] ∧
      readings run.steps = ["views/a.hbs"] ∧ run.result.toOption = some "V" := by
  refine ⟨rfl, ?_, ?_, ?_, ?_⟩
  · cbv
  · cbv
  · cbv
  · cbv

end Cli

end Views
