import Views.Proofs.Engine.Plan

/-!
# What a registration registers

Partials are registered by their names or by a scan of the directory (`Selection`); either way there
is a list of files, and the registration goes through it up to the first file that gives no partial
(`PartialSource.register_prefix`). What was registered before that file stays, the scan counts as
done only if there is no such file, and whoever asked for the registration sees only how many
partials there were.
-/

set_option autoImplicit false

namespace Views

/-! ## Selections -/

/-- What is to be registered: the partials of some names, or all of the directory. -/
inductive Selection where
  | names (names : List String)
  | directory
  deriving DecidableEq

namespace PartialSource

variable (s : PartialSource) (files : Files.FileTree)

/-- Registers what is selected; gives how many partials were registered. -/
def register : Selection → Program Nat
  | .names names => s.registerNamed names
  | .directory => s.registerAll

/-- The files of a selection, in their order. -/
def selected : Selection → Except ViewError (List String)
  | .names names => .ok (names.map (· ++ s.extname))
  | .directory => files.list s.root s.extname

/-- The step that finds out which files are selected. -/
def listing : Selection → List Step
  | .names _ => []
  | .directory => [⟨.list s.root s.extname, files.list s.root s.extname⟩]

/-- Whether a file reads as text that compiles. -/
def gives (path : String) : Bool := (s.fileAt files path).isSome

/-- The steps at a file: it is read, and its text is registered, if it is text. -/
def visit (path : String) : List Step :=
  let file := Files.join s.root path
  let text := Engine.readText files file
  ⟨.read file, text⟩ ::
    match text with
    | .error _ => []
    | .ok source =>
      let name := s.partialName path
      [⟨.registerPartial name source,
        match Template.compile name source true with
        | .ok _ => .ok ()
        | .error err => .error (.compile name (err.message name))⟩]

variable {s files}

/-- A file gives a partial iff it is text that compiles under the name of the partial. -/
theorem gives_iff {path : String} : s.gives files path = true ↔ ∃ source t,
    files.read (Files.join s.root path) = .ok source ∧
      Template.compile (s.partialName path) source true = .ok t := by
  unfold gives fileAt
  cases files.read (Files.join s.root path) with
  | error fault => simp
  | ok source => cases hc : Template.compile (s.partialName path) source true <;> simp [hc]

theorem fileAt_of_compile {path source : String} {t : Template}
    (hr : files.read (Files.join s.root path) = .ok source)
    (hc : Template.compile (s.partialName path) source true = .ok t) :
    s.fileAt files path = some (s.partialName path, t) := by
  simp only [fileAt, hr, hc]

/-- What is loaded comes from the files in front of the first that gives nothing. -/
theorem loaded_eq (paths : List String) :
    s.loaded files paths = (paths.takeWhile (s.gives files)).filterMap (s.fileAt files) := by
  induction paths with
  | nil => rfl
  | cons path rest ih =>
    rw [loaded_cons, List.takeWhile_cons, gives]
    cases hf : s.fileAt files path with
    | none => rfl
    | some entry => simp [hf, ih]

theorem keys_filterMap_fileAt {paths : List String} (h : ∀ path ∈ paths, s.gives files path) :
    Table.keys (paths.filterMap (s.fileAt files)) = paths.map s.partialName := by
  induction paths with
  | nil => rfl
  | cons path rest ih =>
    obtain ⟨entry, he⟩ := Option.isSome_iff_exists.1 (h path List.mem_cons_self)
    have hrest := ih fun p hp => h p (List.mem_cons_of_mem _ hp)
    rw [Table.keys] at hrest ⊢
    rw [List.filterMap_cons_some he, List.map_cons, List.map_cons, hrest, fileAt_name he]

end PartialSource

/-! ## Runs -/

/-- Stores templates under their names, one after the other. -/
def World.defineAll (w : World) (entries : List (String × Template)) : World :=
  { w with registry := { w.registry with templates := w.registry.templates.union entries } }

namespace PartialSource

variable (s : PartialSource) (w : World)

theorem registerFile_run (path : String) :
    match s.fileAt w.files path with
    | some entry =>
      Program.run (s.registerFile path) w = ⟨.ok (), w.defineAll [entry], s.visit w.files path⟩
    | none => ∃ err,
      Program.run (s.registerFile path) w = ⟨.error err, w, s.visit w.files path⟩ := by
  rw [registerFile, Attempt.bind_eq, Attempt.of_eq, Program.run_bind, Program.request,
    Program.run_ask, fileAt, visit, Engine.readText, World.perform]
  cases w.files.read (Files.join s.root path) with
  | error fault => exact ⟨_, rfl⟩
  | ok source =>
    simp only [Except.mapError, Program.run_done, Attempt.after_ok, Attempt.of_eq, Program.request,
      Program.run_ask, Engine.perform_registerPartial]
    cases Template.compile (s.partialName path) source true with
    | error err => exact ⟨_, rfl⟩
    | ok t => rfl

theorem registerFiles_cons (path : String) (rest : List String) :
    s.registerFiles (path :: rest) = Program.bind (s.registerFile path) fun
      | .error _ => .done (0, false)
      | .ok () => (s.registerFiles rest).bind fun (n, all) => .done (n + 1, all) := rfl

/-- **Files are registered up to the first that gives no partial**, which is still looked at. -/
theorem registerFiles_run (paths : List String) :
    let done := paths.takeWhile (s.gives w.files)
    let rest := paths.dropWhile (s.gives w.files)
    (s.registerFiles paths).run w = ⟨(done.length, rest.isEmpty),
      w.defineAll (s.loaded w.files paths), (done ++ rest.take 1).flatMap (s.visit w.files)⟩ := by
  induction paths generalizing w with
  | nil => rfl
  | cons path rest ih =>
    have hfile := s.registerFile_run w path
    rw [registerFiles_cons, Program.run_bind, loaded_cons, List.takeWhile_cons,
      List.dropWhile_cons, gives]
    cases hf : s.fileAt w.files path with
    | none =>
      rw [hf] at hfile
      obtain ⟨err, herr⟩ := hfile
      simp [herr, World.defineAll]
    | some entry =>
      rw [hf] at hfile
      simp only [hfile, Program.run_bind, ih]
      simp [World.defineAll, Table.union]

/-- What a registration leaves that registered the files `done` and stopped at `rest`. -/
structure Registers (sel : Selection) (done rest : List String) (run : Run Nat) : Prop where
  count : run.result = done.length
  /-- The files are visited in their order, the first of `rest` as the last. -/
  steps : run.steps = s.listing w.files sel ++ (done ++ rest.take 1).flatMap (s.visit w.files) ++
    if sel = .directory ∧ rest = [] then [⟨.storeScan, ()⟩] else []
  scanned : run.world.scanned = (w.scanned || decide (sel = .directory ∧ rest = []))
  /-- Nothing else changes. -/
  only : ∃ templates, run.world =
    { w with registry := { w.registry with templates }, scanned := run.world.scanned }
  kept : ∀ name, name ∉ done.map s.partialName →
    run.world.registry.templates.get? name = w.registry.templates.get? name
  /-- Of several files with one name the last counts. -/
  last : ∀ before path after source t, done = before ++ path :: after →
    s.partialName path ∉ after.map s.partialName →
    w.files.read (Files.join s.root path) = .ok source →
    Template.compile (s.partialName path) source true = .ok t →
    run.world.registry.templates.get? (s.partialName path) = some t

variable {s w}

theorem get?_defineAll_loaded_of_notMem {paths : List String} {name : String}
    (h : name ∉ (paths.takeWhile (s.gives w.files)).map s.partialName) :
    (w.defineAll (s.loaded w.files paths)).registry.templates.get? name =
      w.registry.templates.get? name := by
  refine Table.get?_union_of_notMem ?_
  rwa [loaded_eq, keys_filterMap_fileAt (List.all_eq_true.1 List.all_takeWhile)]

theorem get?_defineAll_loaded_of_last {paths before after : List String} {path source : String}
    {t : Template} (hd : paths.takeWhile (s.gives w.files) = before ++ path :: after)
    (hn : s.partialName path ∉ after.map s.partialName)
    (hr : w.files.read (Files.join s.root path) = .ok source)
    (hc : Template.compile (s.partialName path) source true = .ok t) :
    (w.defineAll (s.loaded w.files paths)).registry.templates.get? (s.partialName path) =
      some t := by
  have hgives : ∀ p ∈ after, s.gives w.files p = true := fun p hp =>
    List.all_eq_true.1 List.all_takeWhile p
      (hd ▸ List.mem_append_right _ (List.mem_cons_of_mem _ hp))
  rw [World.defineAll, loaded_eq, hd, List.filterMap_append,
    List.filterMap_cons_some (fileAt_of_compile hr hc)]
  exact Table.get?_union_of_last (keys_filterMap_fileAt hgives ▸ hn)

theorem registerNamed_run (hen : s.enabled = true) (names : List String) :
    let paths := names.map (· ++ s.extname)
    let done := paths.takeWhile (s.gives w.files)
    let rest := paths.dropWhile (s.gives w.files)
    (s.registerNamed names).run w = ⟨done.length, w.defineAll (s.loaded w.files paths),
      (done ++ rest.take 1).flatMap (s.visit w.files)⟩ := by
  intro paths done rest
  have hrun : (s.registerNamed names).run w =
      ((s.registerFiles paths).bind fun r => .done r.1).run w := by
    rw [registerNamed, if_pos hen]
    rfl
  rw [hrun, Program.run_bind, registerFiles_run]
  simp [done, rest]

theorem register_names (hen : s.enabled = true) (names : List String) :
    let paths := names.map (· ++ s.extname)
    s.Registers w (.names names) (paths.takeWhile (s.gives w.files))
      (paths.dropWhile (s.gives w.files)) ((s.register (.names names)).run w) := by
  rw [register, registerNamed_run hen]
  refine ⟨rfl, ?_, ?_, ⟨_, rfl⟩, fun _ => get?_defineAll_loaded_of_notMem,
    fun _ _ _ _ _ => get?_defineAll_loaded_of_last⟩
  · simp [listing]
  · simp [World.defineAll]

theorem register_directory (hen : s.enabled = true) {paths : List String}
    (hl : w.files.list s.root s.extname = .ok paths) :
    s.Registers w .directory (paths.takeWhile (s.gives w.files))
      (paths.dropWhile (s.gives w.files)) ((s.register .directory).run w) := by
  have hrun : (s.register .directory).run w =
      let rest := ((s.registerFiles paths).bind fun r =>
        if r.2 then .ask .storeScan fun _ => .done r.1 else .done r.1).run w
      { rest with steps := s.listing w.files .directory ++ rest.steps } := by
    rw [register, registerAll, if_pos hen, Program.bind_eq, Program.request_bind, Program.run_ask,
      World.perform, hl, listing, hl]
    simp only [List.singleton_append]
    congr 3
  rw [hrun, Program.run_bind, registerFiles_run]
  cases hrest : paths.dropWhile (s.gives w.files) with
  | nil =>
    refine ⟨rfl, ?_, ?_, ⟨_, rfl⟩, fun _ => get?_defineAll_loaded_of_notMem,
      fun _ _ _ _ _ => get?_defineAll_loaded_of_last⟩
    · simp [Program.run_ask]
    · simp [Program.run_ask, World.perform]
  | cons path rest =>
    refine ⟨rfl, ?_, ?_, ⟨_, rfl⟩, fun _ => get?_defineAll_loaded_of_notMem,
      fun _ _ _ _ _ => get?_defineAll_loaded_of_last⟩
    · simp
    · simp [World.defineAll]

theorem register_unlisted (hen : s.enabled = true) {err : ViewError}
    (hl : w.files.list s.root s.extname = .error err) :
    (s.register .directory).run w = ⟨0, w, s.listing w.files .directory⟩ := by
  rw [register, registerAll, if_pos hen, Program.bind_eq, Program.request_bind, Program.run_ask,
    World.perform, hl, listing, hl]
  rfl

/-- **A registration registers the files in front of the first that gives no partial**, in their
order, and no others; the scan counts as done if it was one and there is no such file. If the
directory cannot be listed nothing changes. -/
theorem register_prefix (hroot : s.root ≠ "") (w : World) (sel : Selection) :
    match s.selected w.files sel with
    | .error _ => (s.register sel).run w = ⟨0, w, s.listing w.files sel⟩
    | .ok paths => s.Registers w sel (paths.takeWhile (s.gives w.files))
        (paths.dropWhile (s.gives w.files)) ((s.register sel).run w) := by
  have hen : s.enabled = true := bne_iff_ne.2 hroot
  cases sel with
  | names names => exact register_names hen names
  | directory =>
    unfold selected
    cases hl : w.files.list s.root s.extname with
    | ok paths => exact register_directory hen hl
    | error err => exact register_unlisted hen hl

/-- Two files have one name, and one of the files behind them is malformed. -/
theorem register_prefix_malformed :
    let s : PartialSource := ⟨"p", ".hbs"⟩
    let files : Files.FileTree :=
      ⟨.directory [("p", .directory [("a", .directory [("b.hbs", .file "1")]),
          ("a\\b.hbs", .file "2"), ("c.hbs", .file "\x7b\x7b"), ("d.hbs", .file "4")])], []⟩
    let w : World := ⟨Stores.fresh (Registry.new false true) true, files⟩
    let run := (s.register .directory).run w
    s.Registers w .directory ["a/b.hbs", "a\\b.hbs"] ["c.hbs", "d.hbs"] run ∧
      run.result = 2 ∧ run.world.scanned = false ∧
      run.world.registry.templates.get? "a/b" = some (.mk (some "a/b") [(.text "2", none)]) := by
  intro s files w run
  have hlist : files.list "p" ".hbs" = .ok ["a/b.hbs", "a\\b.hbs", "c.hbs", "d.hbs"] := by cbv
  have hdone : ["a/b.hbs", "a\\b.hbs", "c.hbs", "d.hbs"].takeWhile (s.gives files) =
      ["a/b.hbs", "a\\b.hbs"] := by cbv
  have hrest : ["a/b.hbs", "a\\b.hbs", "c.hbs", "d.hbs"].dropWhile (s.gives files) =
      ["c.hbs", "d.hbs"] := by cbv
  have hregisters := register_prefix (s := s) (by decide) w .directory
  rw [selected, show w.files.list s.root s.extname = _ from hlist] at hregisters
  simp only at hregisters
  rw [show w.files = files from rfl, hdone, hrest] at hregisters
  have hname : s.partialName "a\\b.hbs" = "a/b" := by cbv
  refine ⟨hregisters, hregisters.count, hregisters.scanned, ?_⟩
  rw [← hname]
  exact hregisters.last ["a/b.hbs"] "a\\b.hbs" [] "2" _ rfl List.not_mem_nil (by cbv) (by cbv)

end PartialSource

end Views
