import Views.Proofs.Engine.Plan

/-!
# The parts of a render

Each part of a render is a program of its own, and has the requests that it can make, whatever it is
answered. A registration reads files below the directory of the partials and registers them under
their names (`PartialSource.Registering`), a scan also lists the directory
(`PartialSource.Scanning`), a name is looked for in the memo and among the views
(`Resolver.Looking`), and once a file is read, loading it registers the partials that it refers to,
if there is no caching, and compiles it (`Engine.Loading`). A render that has seen to the partials
asks for nothing but that, and for what the cache keeps, until it executes something
(`Engine.Assembling`). How the parts make up a render is in `Engine.answer_eq`.
-/

set_option autoImplicit false

namespace Views

open Program

/-! ## The cache -/

/-- Stores nothing in the cache. -/
def Request.Passes : Request → Prop
  | .storeEntry _ _ => False
  | .storeDefault _ => False
  | _ => True

theorem World.cache_perform {w : World} {r : Request} (h : r.Passes) :
    (w.perform r).2.cache = w.cache := by
  rw [perform_world]
  cases r with
  | storeEntry name entry => exact h.elim
  | storeDefault layout => exact h.elim
  | _ => rfl

theorem Program.Asks.cache {α : Type} {p : Program α} (hp : p.Asks Request.Passes) (w : World) :
    (p.run w).world.cache = w.cache :=
  hp.world (J := fun v => v.cache = w.cache) rfl fun _ _ hr hv => (World.cache_perform hr).trans hv

/-! ## Partials -/

namespace PartialSource

variable (s : PartialSource)

/-- What registering some files asks for. -/
inductive Registering (paths : List String) : Request → Prop
  | read {path : String} (h : path ∈ paths) : Registering paths (.read (Files.join s.root path))
  | register {path : String} (h : path ∈ paths) (source : String) :
      Registering paths (.registerPartial (s.partialName path) source)

/-- What a scan asks for. -/
inductive Scanning : Request → Prop
  | recall : Scanning .recallScan
  | list : Scanning (.list s.root s.extname)
  | registering {paths : List String} {r : Request} (h : s.Registering paths r) : Scanning r
  | store : Scanning .storeScan

variable {s}

theorem Registering.mono {paths paths' : List String} {r : Request} (h : s.Registering paths r)
    (hp : ∀ path ∈ paths, path ∈ paths') : s.Registering paths' r := by
  cases h with
  | read h => exact .read (hp _ h)
  | register h source => exact .register (hp _ h) source

variable (s)

theorem registerFile_asks (path : String) : Asks (s.Registering [path]) (s.registerFile path) := by
  rw [registerFile, Attempt.bind_eq]
  exact .attempt (.request (.read List.mem_cons_self)) fun source =>
    .request (.register List.mem_cons_self source)

theorem registerFiles_asks (paths : List String) :
    (s.registerFiles paths).Asks (s.Registering paths) := by
  induction paths with
  | nil => trivial
  | cons path rest ih =>
    refine .bind ((s.registerFile_asks path).mono fun r h => h.mono ?_) fun r => ?_
    · exact fun p hp => List.mem_singleton.1 hp ▸ List.mem_cons_self
    · cases r with
      | error err => trivial
      | ok _ =>
        refine .bind (ih.mono fun r h => h.mono ?_) fun _ => trivial
        exact fun p hp => List.mem_cons_of_mem _ hp

theorem registerNamed_asks (names : List String) :
    (s.registerNamed names).Asks (s.Registering (names.map (· ++ s.extname))) := by
  unfold registerNamed
  split
  · exact .bind (s.registerFiles_asks _) fun _ => trivial
  · trivial

theorem registerAll_asks : s.registerAll.Asks s.Scanning := by
  unfold registerAll
  split
  · refine .bind (.request .list) fun listed => ?_
    cases listed with
    | error err => trivial
    | ok paths =>
      refine .bind ((s.registerFiles_asks paths).mono fun _ => .registering) fun r => ?_
      obtain ⟨n, all⟩ := r
      cases all with
      | false => trivial
      | true => exact .bind (.request .store) fun _ => trivial
  · trivial

theorem ensureScanned_asks : s.ensureScanned.Asks s.Scanning := by
  unfold ensureScanned
  split
  · refine .bind (.request .recall) fun scanned => ?_
    split
    · trivial
    · exact .bind s.registerAll_asks fun _ => trivial
  · trivial

theorem Registering.passes {s : PartialSource} {paths : List String} {r : Request}
    (h : s.Registering paths r) : r.Passes := by
  cases h <;> trivial

theorem Scanning.passes {s : PartialSource} {r : Request} (h : s.Scanning r) : r.Passes := by
  cases h with
  | registering h => exact h.passes
  | _ => trivial

end PartialSource

/-! ## Names -/

namespace Resolver

variable (r : Resolver)

/-- What resolving a name asks for. -/
inductive Looking (name : String) : Request → Prop
  | recall : Looking name (.recallPath name)
  | probe : Looking name (.probe (r.templatePath name))
  | store (path : String) : Looking name (.storePath name path)

theorem resolve_asks (name : String) : (r.resolve name).Asks (r.Looking name) := by
  unfold resolve
  split
  · trivial
  · refine .bind (.request .recall) fun known => ?_
    split
    · trivial
    · refine .bind (.request .probe) fun there => ?_
      split
      · split
        · exact .bind (.request (.store _)) fun _ => trivial
        · trivial
      · trivial

end Resolver

/-! ## Files -/

namespace Engine

variable (e : Engine)

/-- The files of the partials that a text refers to. -/
def referred (source : String) : List String :=
  (Markers.partialNames source).map (· ++ e.partials.extname)

/-- What loading asks for before it compiles a text. -/
inductive Readying (source : String) : Request → Prop
  | registering {r : Request} (hoff : e.config.caching = false)
      (h : e.partials.Registering (e.referred source) r) : Readying source r
  | number : Readying source .nextNumber

/-- What loading a file asks for once it is read. -/
inductive Loading (kind : FileKind) (path source : String) : Request → Prop
  | readying {r : Request} (h : e.Readying source r) : Loading kind path source r
  | compile (i : Option Nat) : Loading kind path source (.compile (keyOf kind path i) source)

theorem registerReferenced_asks (source : String) :
    (e.registerReferenced source).Asks (e.Readying source) := by
  unfold registerReferenced
  split
  · trivial
  · rename_i hoff
    split
    · cases hnames : Markers.partialNames source with
      | nil => trivial
      | cons name names =>
        refine .bind ((e.partials.registerNamed_asks (name :: names)).mono fun r h => ?_)
          fun _ => trivial
        exact .registering (by simpa using hoff) (h.mono fun p hp => by rwa [referred, hnames])
    · trivial

theorem compileKey_asks (kind : FileKind) (path source : String) :
    (e.compileKey kind path).Asks (e.Readying source) := by
  unfold compileKey
  split
  · exact .bind (.request .number) fun _ => trivial
  · trivial

/-- The number in the key that is made next. -/
def nextMark (w : World) : Option Nat := if e.config.caching then some w.number else none

theorem compileKey_result (kind : FileKind) (path : String) (w : World) :
    ((e.compileKey kind path).run w).result = keyOf kind path (e.nextMark w) := by
  unfold compileKey nextMark
  split
  · rfl
  · rfl

theorem compile_run (key source : String) (w : World) :
    let run := Program.run (Program.bind (Program.request (.compile key source))
      (Attempt.after fun template => .done (.ok (template, source)))) w
    run.steps = [⟨.compile key source, (w.perform (.compile key source)).1⟩] ∧
      run.result = (w.perform (.compile key source)).1.map (·, source) := by
  rw [request_bind, run_ask]
  cases (w.perform (.compile key source)).1 <;> exact ⟨rfl, rfl⟩

/-- **A text is compiled at the end of its loading**, under a key of its file. -/
theorem loadText_run (kind : FileKind) (path source : String) (w : World) :
    let run := Program.run (e.loadText kind path source) w
    ∃ before i answer, (∀ step ∈ before, e.Readying source step.1) ∧
      run.steps = before ++ [⟨.compile (keyOf kind path i) source, answer⟩] ∧
      run.result = answer.map (·, source) := by
  let registered := (e.registerReferenced source).run w
  let keyed := (e.compileKey kind path).run registered.world
  obtain ⟨i, hi⟩ : ∃ i, keyed.result = keyOf kind path i :=
    ⟨_, e.compileKey_result kind path registered.world⟩
  obtain ⟨hsteps, hresult⟩ := compile_run keyed.result source keyed.world
  simp only [loadText_eq, Program.run_bind]
  refine ⟨registered.steps ++ keyed.steps, i, (keyed.world.perform (.compile _ source)).1,
    fun step hm => ?_, ?_, hi ▸ hresult⟩
  · rcases List.mem_append.1 hm with hm | hm
    · exact (e.registerReferenced_asks source).steps w step hm
    · exact (e.compileKey_asks kind path source).steps registered.world step hm
  · rw [List.append_assoc, ← hi]
    exact congrArg (fun steps => registered.steps ++ (keyed.steps ++ steps)) hsteps

theorem loadText_asks (kind : FileKind) (path source : String) :
    Asks (e.Loading kind path source) (e.loadText kind path source) := by
  rw [loadText_eq]
  refine .bind ((e.registerReferenced_asks source).mono fun _ => .readying) fun _ => ?_
  unfold compileKey
  split
  · exact ⟨.readying .number, fun n => .attempt (.request (.compile (some n))) fun _ => trivial⟩
  · exact .attempt (.request (.compile none)) fun _ => trivial

theorem Loading.passes {e : Engine} {kind : FileKind} {path source : String} {r : Request}
    (h : e.Loading kind path source r) : r.Passes := by
  cases h with
  | compile i => trivial
  | readying h =>
    cases h with
    | registering _ h => exact h.passes
    | number => trivial

theorem loadFile_passes (kind : FileKind) (path : String) :
    Asks Request.Passes (e.loadFile kind path) := by
  rw [loadFile_eq]
  exact .attempt (.request trivial) fun source =>
    (e.loadText_asks kind path source).mono fun _ h => h.passes

/-- A file that cannot be read is not loaded, and any other one is read first. -/
theorem loadFile_run (kind : FileKind) (path : String) (w : World) :
    let run := Program.run (e.loadFile kind path) w
    match readText w.files path with
    | .error err => run.steps = [⟨.read path, .error err⟩] ∧ run.result = .error err
    | .ok source => ∃ before i answer, (∀ step ∈ before, e.Readying source step.1) ∧
        run.steps = ⟨.read path, .ok source⟩ ::
          (before ++ [⟨.compile (keyOf kind path i) source, answer⟩]) ∧
        run.result = answer.map (·, source) := by
  rw [loadFile_eq, request_bind, run_ask,
    show w.perform (.read path) = (readText w.files path, w) from rfl]
  cases readText w.files path with
  | error err => exact ⟨rfl, rfl⟩
  | ok source =>
    obtain ⟨before, i, answer, hbefore, hsteps, hresult⟩ := e.loadText_run kind path source w
    exact ⟨before, i, answer, hbefore, congrArg _ hsteps, hresult⟩

/-! ## Views and layouts -/

/-- What a render asks for between seeing to the partials and executing something. -/
inductive Assembling (logical : String) : Request → Prop
  | recallEntry : Assembling logical (.recallEntry logical)
  | storeEntry (entry : CacheEntry) : Assembling logical (.storeEntry logical entry)
  | recallDefault : Assembling logical .recallDefault
  | storeDefault (layout : Compiled) : Assembling logical (.storeDefault layout)
  | read (path : String) : Assembling logical (.read path)
  | loading {kind : FileKind} {path source : String} {r : Request}
      (h : e.Loading kind path source r) : Assembling logical r
  | identity : Assembling logical (.compile identityKey identitySource)

variable {logical : String}

theorem loadFile_asks (kind : FileKind) (path : String) :
    Asks (e.Assembling logical) (e.loadFile kind path) := by
  rw [loadFile_eq]
  exact .attempt (.request (.read path)) fun source =>
    (e.loadText_asks kind path source).mono fun _ => .loading

theorem loadLayout_asks (name : String) : Asks (e.Assembling logical) (e.loadLayout name) := by
  rw [loadLayout_eq]
  exact .attempt (e.loadFile_asks _ _) fun _ => trivial

theorem identityLayout_asks : Asks (e.Assembling logical) identityLayout := .request .identity

theorem layoutFor_asks (choice : LayoutChoice) :
    Asks (e.Assembling logical) (e.layoutFor choice) := by
  cases choice with
  | byDefault => trivial
  | identity =>
    rw [layoutFor, Attempt.map_eq]
    exact .bind e.identityLayout_asks fun _ => trivial
  | named name =>
    rw [layoutFor, Attempt.map_eq]
    exact .bind (e.loadLayout_asks name) fun _ => trivial

theorem defaultLayout_asks : e.defaultLayout.Asks (e.Assembling logical) := by
  unfold defaultLayout
  refine .bind (.request .recallDefault) fun known => ?_
  split
  · trivial
  · refine .bind ?_ fun loaded => ?_
    · split
      · exact e.loadLayout_asks _
      · exact e.identityLayout_asks
    · split
      · exact .bind (.request (.storeDefault _)) fun _ => trivial
      · trivial

theorem entryFor_asks (path : String) (locals : Fields) :
    Asks (e.Assembling logical) (e.entryFor logical path locals) := by
  rw [entryFor_eq]
  refine ⟨.recallEntry, fun known => ?_⟩
  cases known with
  | some entry => trivial
  | none =>
    refine .attempt (e.loadFile_asks _ _) fun loaded => ?_
    exact .attempt (e.layoutFor_asks _) fun _ => .bind (.request (.storeEntry _)) fun _ => trivial

/-! ## A render in parts -/

/-- Executes a template. -/
inductive Executing : Request → Prop
  | mk (t : Compiled) (locals : Fields) (scope : Scope) : Executing (.execute t locals scope)

theorem execute_asks (t : Compiled) (locals : Fields) (scope : Scope) :
    Asks Executing (execute t locals scope) := by
  rw [execute_eq]
  exact ⟨.mk .., fun _ => trivial⟩

theorem finish_asks (locals : Fields) (request : Value) (p : Prepared) :
    Asks Executing (e.finish logical locals request p) := by
  rw [finish_eq]
  refine .attempt (execute_asks ..) fun body => ?_
  split
  · trivial
  · exact .attempt (execute_asks ..) fun _ => trivial

/-- What a render does with its entry: it sees to a layout and executes both. -/
def resume (q : Query) (entry : CacheEntry) : Attempt String := do
  let layout ← (match entry.layout with
    | some layout => pure (some layout)
    | none => e.defaultLayout : Program _)
  e.finish q.logical (e.merged q) q.request ⟨entry.template, layout⟩

/-- What a render does once its view is compiled. -/
def conclude (q : Query) (view : Compiled) (source : String) : Attempt String :=
  Program.bind (e.layoutFor (chooseLayout (e.merged q) source)) (Attempt.after fun own =>
    .ask (.storeEntry q.logical ⟨view, own⟩) fun _ => e.resume q ⟨view, own⟩)

theorem resume_eq (q : Query) (entry : CacheEntry) : e.resume q entry =
    (match entry.layout with
      | some layout => .done (some layout)
      | none => e.defaultLayout : Program _).bind fun layout =>
        e.finish q.logical (e.merged q) q.request ⟨entry.template, layout⟩ := by
  simp only [resume, Attempt.bind_eq, Attempt.lift_eq, Attempt.lift_bind]
  rfl

theorem resume_asks (q : Query) (entry : CacheEntry) :
    Asks (fun r => e.Assembling q.logical r ∨ Executing r) (e.resume q entry) := by
  rw [resume_eq]
  refine .bind ?_ fun layout => (e.finish_asks ..).mono fun _ => .inr
  split
  · trivial
  · exact e.defaultLayout_asks.mono fun _ => .inl

theorem answer_eq (q : Query) : e.answer q = (e.resolver.resolve q.logical).bind fun
    | none => .done (.error (.missingTemplate (e.resolver.templatePath q.logical)))
    | some path => e.partials.ensureScanned.bind fun _ =>
        Program.bind (e.entryFor q.logical path (e.merged q)) (Attempt.after (e.resume q)) := by
  rw [answer_bind, prepare_eq, Program.bind_assoc]
  congr
  funext path
  cases path with
  | none => rfl
  | some path =>
    simp only
    rw [Program.bind_assoc]
    congr
    funext _
    rw [Attempt.bind_after]
    congr
    funext entry
    rw [Program.bind_assoc, resume_eq]
    rfl

theorem entryFor_resume (q : Query) (path : String) :
    Program.bind (e.entryFor q.logical path (e.merged q)) (Attempt.after (e.resume q)) =
      .ask (.recallEntry q.logical) fun
      | some entry => e.resume q entry
      | none => Program.bind (e.loadFile .view path)
          (Attempt.after fun loaded => e.conclude q loaded.1 loaded.2) := by
  rw [entryFor_eq]
  refine congrArg (Program.ask (.recallEntry q.logical)) (funext fun entry => ?_)
  cases entry with
  | some entry => rfl
  | none =>
    refine (Attempt.bind_after (e.loadFile .view path) _ _).trans ?_
    congr
    funext loaded
    exact Attempt.bind_after ..

end Engine

end Views
