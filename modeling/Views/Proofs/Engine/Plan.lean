import Mathlib.Data.List.Nodup
import Views.Engine.World
import Views.Proofs.Engine.Keys
import Views.Proofs.Program.Run
import Views.Proofs.Registry

/-!
# What a render prepares

`Engine.plan` is what a render prepares as a function of the files and of a choice of layout: no
step, no store, only the numbers in the keys are left open. `PartialSource.loaded` are the partials
that files give, up to the first file that gives none. `Engine.Held` says that a registry holds what
was compiled from an origin, together with the partials that its text refers to if there is no
caching.

The programs of a render are opened into their parts here, once for all that reasons about their
requests (`Engine.prepare_eq`, `Engine.finish_eq`).
-/

set_option autoImplicit false

namespace Views

/-! ## Queries -/

/-- What a render is asked for. -/
structure Query where
  state : Fields := []
  request : Value := .null
  name : String
  locals : Fields := []

/-- The name of the view, with the theme. -/
def Query.logical (q : Query) : String := Engine.logicalName q.state q.name

/-- The world of an engine that has done nothing yet. -/
def Engine.world (e : Engine) (base : Registry) (files : Files.FileTree) : World :=
  ⟨Stores.fresh base e.config.caching, files⟩

/-- The render that a query asks for. -/
def Engine.answer (e : Engine) (q : Query) : Program (Except ViewError String) :=
  e.renderView q.state q.request q.name q.locals

/-- The renders of some queries, one after the other. -/
def Engine.serve (e : Engine) : List Query → Program (List (Except ViewError String))
  | [] => return []
  | q :: qs => do
    let result ← e.answer q
    let results ← e.serve qs
    return result :: results

/-! ## The parts of a render -/

namespace Engine

section

variable (e : Engine)

/-- What loading a file does with its text. -/
def loadText (kind : FileKind) (path source : String) : Attempt (Compiled × String) := do
  e.registerReferenced source
  let key ← e.compileKey kind path
  let template ← Attempt.of (Program.request (.compile key source))
  return (template, source)

theorem loadText_eq (kind : FileKind) (path source : String) :
    e.loadText kind path source = (e.registerReferenced source).bind fun _ =>
      (e.compileKey kind path).bind fun key =>
        Program.bind (Program.request (.compile key source))
          (Attempt.after fun template => .done (.ok (template, source))) := by
  simp only [loadText, Attempt.of_eq, Attempt.bind_eq, Attempt.lift_eq, Attempt.lift_bind]
  rfl

theorem loadFile_eq (kind : FileKind) (path : String) :
    e.loadFile kind path =
      Program.bind (Program.request (.read path)) (Attempt.after (e.loadText kind path)) :=
  Attempt.bind_eq ..

theorem loadLayout_eq (name : String) : e.loadLayout name =
    Program.bind (e.loadFile .layout (e.resolver.layoutPath name))
      (Attempt.after fun loaded => .done (.ok loaded.1)) :=
  Attempt.bind_eq _ _

theorem entryFor_eq (name path : String) (locals : Fields) : e.entryFor name path locals =
    .ask (.recallEntry name) fun
      | some entry => .done (.ok entry)
      | none => Program.bind (e.loadFile .view path) (Attempt.after fun loaded =>
          Program.bind (e.layoutFor (chooseLayout locals loaded.2)) (Attempt.after fun layout =>
            .ask (.storeEntry name ⟨loaded.1, layout⟩) fun _ =>
              .done (.ok ⟨loaded.1, layout⟩))) := by
  simp only [entryFor, Attempt.bind_eq, Attempt.lift_eq, Attempt.lift_bind]
  refine congrArg (Program.ask _) (funext fun known => ?_)
  cases known <;> rfl

theorem prepare_eq (name : String) (locals : Fields) : e.prepare name locals =
    (e.resolver.resolve name).bind fun
      | none => .done (.error (.missingTemplate (e.resolver.templatePath name)))
      | some path => e.partials.ensureScanned.bind fun _ =>
          Program.bind (e.entryFor name path locals) (Attempt.after fun entry =>
            (match entry.layout with
              | some layout => .done (some layout)
              | none => e.defaultLayout : Program _).bind fun layout =>
                .done (.ok ⟨entry.template, layout⟩)) := by
  simp only [prepare, Attempt.bind_eq, Attempt.lift_eq, Attempt.lift_bind]
  refine congrArg (Program.bind _) (funext fun path => ?_)
  cases path <;> rfl

theorem execute_eq (t : Compiled) (locals : Fields) (scope : Scope) :
    execute t locals scope = .ask (.execute t locals scope) fun answer =>
      .done (answer.1.map fun out => (out, answer.2)) := by
  simp only [execute, Attempt.of_eq, Attempt.bind_eq, Attempt.lift_eq, Attempt.lift_bind]
  refine congrArg (Program.ask _) (funext fun answer => ?_)
  obtain ⟨result, left⟩ := answer
  cases result <;> rfl

theorem finish_eq (name : String) (locals : Fields) (request : Value) (p : Prepared) :
    e.finish name locals request p =
      Program.bind (execute p.view locals (Scope.withData (e.scopeData request)))
        (Attempt.after fun body =>
          match p.layout with
          | none => .done (.error (.layoutUnavailable name))
          | some layout => Program.bind
              (execute layout (Table.insert locals "body" (.string body.1)) body.2)
              (Attempt.after fun output => .done (.ok output.1))) := by
  simp only [finish, Attempt.bind_eq]
  refine congrArg (Program.bind _) (congrArg _ (funext fun body => ?_))
  cases p.layout <;> rfl

end

end Engine

/-! ## Partials -/

namespace PartialSource

variable (s : PartialSource) (files : Files.FileTree)

/-- The partial that a file gives. -/
def fileAt (path : String) : Option (String × Template) :=
  match files.read (Files.join s.root path) with
  | .error _ => none
  | .ok text =>
    match Template.compile (s.partialName path) text true with
    | .ok t => some (s.partialName path, t)
    | .error _ => none

/-- The partials that files give, up to the first that gives none. -/
def loaded : List String → List (String × Template)
  | [] => []
  | path :: rest =>
    match s.fileAt files path with
    | some entry => entry :: loaded rest
    | none => []

/-- The files that a scan goes through. -/
def listed : List String :=
  if s.enabled then
    match files.list s.root s.extname with
    | .ok paths => paths
    | .error _ => []
  else []

/-- The partials that a scan registers. -/
def scan : List (String × Template) := s.loaded files (s.listed files)

/-- The partials that the markers of a text register. -/
def named (text : String) : List (String × Template) :=
  if s.enabled then s.loaded files ((Markers.partialNames text).map (· ++ s.extname)) else []

variable {s files}

@[simp] theorem loaded_nil : s.loaded files [] = [] := rfl

theorem scan_of_list {paths : List String} (hen : s.enabled = true)
    (h : files.list s.root s.extname = .ok paths) : s.scan files = s.loaded files paths := by
  rw [scan, listed, if_pos hen, h]

theorem scan_of_list_error {err : ViewError} (hen : s.enabled = true)
    (h : files.list s.root s.extname = .error err) : s.scan files = [] := by
  rw [scan, listed, if_pos hen, h, loaded_nil]

theorem scan_of_disabled (h : ¬ s.enabled = true) : s.scan files = [] := by
  rw [scan, listed, if_neg h, loaded_nil]

theorem loaded_cons (path : String) (rest : List String) :
    s.loaded files (path :: rest) =
      match s.fileAt files path with
      | some entry => entry :: s.loaded files rest
      | none => [] := rfl

theorem fileAt_name {path : String} {entry : String × Template}
    (h : s.fileAt files path = some entry) : entry.1 = s.partialName path := by
  unfold fileAt at h
  split at h
  · cases h
  · split at h <;> cases h
    rfl

theorem exists_of_mem_loaded {paths : List String} {entry : String × Template}
    (h : entry ∈ s.loaded files paths) : ∃ path ∈ paths, s.fileAt files path = some entry := by
  induction paths with
  | nil => simp at h
  | cons path rest ih =>
    rw [loaded_cons] at h
    split at h
    · rename_i first hf
      rcases List.mem_cons.1 h with rfl | h
      · exact ⟨path, List.mem_cons_self, hf⟩
      · obtain ⟨p, hp, he⟩ := ih h
        exact ⟨p, List.mem_cons_of_mem _ hp, he⟩
    · cases h

/-- Files with different names give one partial for a name. -/
theorem loaded_unique {paths : List String} (h : (paths.map s.partialName).Nodup) {name : String}
    {t u : Template} (ht : (name, t) ∈ s.loaded files paths)
    (hu : (name, u) ∈ s.loaded files paths) : t = u := by
  obtain ⟨p, hp, hpt⟩ := exists_of_mem_loaded ht
  obtain ⟨q, hq, hqu⟩ := exists_of_mem_loaded hu
  obtain rfl : p = q := List.inj_on_of_nodup_map h hp hq (by
    rw [← fileAt_name hpt, ← fileAt_name hqu])
  rw [hpt, Option.some.injEq, Prod.mk.injEq] at hqu
  exact hqu.2

theorem exists_of_mem_named {text : String} {entry : String × Template}
    (h : entry ∈ s.named files text) : ∃ name, Engine.Marked name ∧
      entry.1 = name ++ Engine.ending s.extname ∧
      s.fileAt files (name ++ s.extname) = some entry := by
  unfold named at h
  split at h
  · obtain ⟨path, hp, he⟩ := exists_of_mem_loaded h
    obtain ⟨name, hn, rfl⟩ := List.mem_map.1 hp
    have hm := Engine.marked_of_mem_partialNames hn
    exact ⟨name, hm, by rw [fileAt_name he, Engine.partialName_marked s hm], he⟩
  · cases h

/-- The markers of all texts give one partial for a name. -/
theorem named_unique {text text' name : String} {t u : Template}
    (ht : (name, t) ∈ s.named files text) (hu : (name, u) ∈ s.named files text') : t = u := by
  obtain ⟨n, -, hn, hnt⟩ := exists_of_mem_named ht
  obtain ⟨m, -, hm, hmu⟩ := exists_of_mem_named hu
  obtain rfl : n = m := String.append_left_inj _ |>.1 (hn.symm.trans hm)
  rw [hnt, Option.some.injEq, Prod.mk.injEq] at hmu
  exact hmu.2

end PartialSource

/-! ## Loading -/

/-- Stores a template under a name. -/
def World.define (w : World) (name : String) (t : Template) : World :=
  { w with registry := w.registry.define name t }

namespace Engine

variable (e : Engine) (files : Files.FileTree)

/-! ## Origins -/

/-- The text of a file. -/
def readText (path : String) : Except ViewError String :=
  (files.read path).mapError fun fault => .io path (.system fault)

/-- The text of an origin. -/
def textOf (o : Origin) : Except ViewError String :=
  match e.fileOf o with
  | some (_, path) => readText files path
  | none => .ok identitySource

/-- What compiling a text under a key gives. -/
@[irreducible] def compiled (key text : String) : Except ViewError Compiled :=
  match Template.elementsOf text false with
  | .ok _ => .ok ⟨key, key⟩
  | .error err => .error (.compile key (err.message key))

theorem perform_compile (w : World) (key text : String) :
    w.perform (.compile key text) = (compiled key text,
      match Template.elementsOf text false with
      | .ok elements => w.define key (.mk (some key) elements)
      | .error _ => w) := by
  rw [World.perform, Registry.compile, Registry.register, Template.compile, compiled]
  cases Template.elementsOf text false <;> rfl

theorem perform_registerPartial (w : World) (name text : String) :
    w.perform (.registerPartial name text) =
      match Template.compile name text true with
      | .ok t => (.ok (), w.define name t)
      | .error err => (.error (.compile name (err.message name)), w) := by
  rw [World.perform, Registry.registerPartial, Registry.register]
  cases Template.compile name text true <;> rfl

/-- What reading and compiling an origin gives. -/
def load (o : Origin) (i : Option Nat) : Except ViewError Compiled := do
  let text ← e.textOf files o
  compiled (e.keyFor o i) text

/-- A registry holds what was compiled from an origin. -/
structure Held (r : Registry) (o : Origin) (t : Compiled) : Prop where
  key : ∃ i, e.Numbered i ∧ t = ⟨e.keyFor o i, e.keyFor o i⟩
  holds : ∃ text, e.textOf files o = .ok text ∧ r.Holds t.key text ∧
    (e.config.caching = false →
      ∀ entry ∈ e.partials.named files text, r.templates.get? entry.1 = some entry.2)

variable {e files} in
theorem Held.load {r : Registry} {o : Origin} {t : Compiled} (h : e.Held files r o t) :
    ∃ i, e.Numbered i ∧ e.load files o i = .ok t := by
  obtain ⟨⟨i, hi, rfl⟩, text, ht, ⟨elements, he, -⟩, -⟩ := h
  refine ⟨i, hi, ?_⟩
  rw [Engine.load, ht]
  show compiled _ text = _
  rw [compiled, he]

/-! ## Plans -/

/-- The origin of a chosen layout. -/
def originOf : LayoutChoice → Origin
  | .identity => .identity
  | .named name => .layout name
  | .byDefault =>
    match e.config.defaultLayoutName? with
    | some name => .layout name
    | none => .identity

/-- Whether the file of a view is there; an absolute name is not looked for. -/
def found (logical : String) : Bool :=
  Files.isAbsolute logical || files.isFile (e.resolver.templatePath logical)

/-- The variables of a render. -/
def merged (q : Query) : Fields := mergeLocals e.config.locals q.state q.locals

/-- A render prepares what it executes, then it executes it. -/
theorem answer_bind (q : Query) : e.answer q =
    Program.bind (e.prepare q.logical (e.merged q))
      (Attempt.after fun p => e.finish q.logical (e.merged q) q.request p) :=
  Attempt.bind_eq _ _

/-- The choice of layout that a render itself makes. -/
def ownChoice (q : Query) : LayoutChoice :=
  match e.textOf files (.view q.logical) with
  | .ok text => chooseLayout (e.merged q) text
  | .error _ => .byDefault

/-- The layout of a choice; a default layout that cannot be loaded is none. -/
def planLayout (choice : LayoutChoice) (j : Option Nat) : Except ViewError (Option Compiled) :=
  match choice with
  | .byDefault => .ok (e.load files (e.originOf .byDefault) j).toOption
  | choice => (e.load files (e.originOf choice) j).map some

variable {e files} in
theorem planLayout_of_ne {choice : LayoutChoice} (h : choice ≠ .byDefault) (j : Option Nat) :
    e.planLayout files choice j = (e.load files (e.originOf choice) j).map some := by
  cases choice with
  | byDefault => exact absurd rfl h
  | identity => rfl
  | named name => rfl

/-- What a render prepares with a choice of layout and the numbers of its compilations. -/
def plan (logical : String) (choice : LayoutChoice) (i j : Option Nat) :
    Except ViewError Prepared :=
  if e.found files logical then do
    let view ← e.load files (.view logical) i
    let layout ← e.planLayout files choice j
    pure ⟨view, layout⟩
  else throw (.missingTemplate (e.resolver.templatePath logical))

end Engine

end Views
