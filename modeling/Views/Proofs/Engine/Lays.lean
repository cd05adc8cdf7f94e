import Views.Proofs.Precedence
import Views.Proofs.Program.Trace

/-!
# What a render does about its layout

A render compiles its view once, and what it does about its layout is in the steps behind that
(`Engine.answer_concluded`). `Engine.Lays` says what such steps do: they read the file of the layout
and no other but those of partials, or no file at all if the layout is the one that writes the body
alone, they compile the layout, and they execute it and the view. These are the steps behind the
view, for the layout that the text and the variables choose (`Engine.conclude_lays`).
-/

set_option autoImplicit false

namespace Views

open Program

/-! ## Readings -/

/-- The file that a step reads, or tries to. -/
def Step.reading? : Step → Option String
  | ⟨.read path, _⟩ => some path
  | _ => none

/-- The files that some steps read or try to read, in order. -/
def readings (steps : List Step) : List String := steps.filterMap Step.reading?

@[simp] theorem readings_append (a b : List Step) :
    readings (a ++ b) = readings a ++ readings b := List.filterMap_append

/-- Neither reads nor compiles a file. -/
def Request.Quiet : Request → Prop
  | .read _ => False
  | .compile _ _ => False
  | _ => True

theorem readings_of_quiet {steps : List Step} (h : ∀ step ∈ steps, step.1.Quiet) :
    readings steps = [] := by
  refine List.filterMap_eq_nil_iff.2 fun step hm => ?_
  obtain ⟨r, answer⟩ := step
  have hr := h _ hm
  cases r with
  | read path => exact hr.elim
  | _ => rfl

theorem mem_readings {steps : List Step} {path : String} (h : path ∈ readings steps) :
    ∃ answer, (⟨.read path, answer⟩ : Step) ∈ steps := by
  obtain ⟨⟨r, answer⟩, hm, hp⟩ := List.mem_filterMap.1 h
  cases r with
  | read other =>
    obtain rfl := Option.some.inj hp
    exact ⟨answer, hm⟩
  | _ => cases hp

theorem mem_executions {steps : List Step} {t : Compiled} (h : t ∈ executions steps) :
    ∃ locals scope answer, (⟨.execute t locals scope, answer⟩ : Step) ∈ steps := by
  obtain ⟨⟨r, answer⟩, hm, ht⟩ := List.mem_filterMap.1 h
  cases r with
  | execute other locals scope =>
    obtain rfl := Option.some.inj ht
    exact ⟨locals, scope, answer, hm⟩
  | _ => cases ht

namespace Engine

variable (e : Engine)

/-! ## The layout of a render -/

/-- What is read for a layout with a file: the file first, and then only partials that its text
refers to, if there is no caching. Without a file nothing is read. -/
def ReadFor : Option String → List String → Prop
  | some path, read => ∃ rest, read = path :: rest ∧ ∀ other ∈ rest, e.config.caching = false ∧
      ∃ name, other = Files.join e.config.partialsPath (name ++ e.config.extname)
  | none, read => read = []

/-- What is compiled for a layout. -/
def CompiledFor : Option String → String → Prop
  | some path, key => ∃ i, key = keyOf .layout path i
  | none, key => key = identityKey

/-- What some steps do about a layout; one without a file writes the body alone. Of what is executed
all but the view was compiled in these steps. -/
structure Lays (view : Compiled) (path? : Option String) (steps : List Step) : Prop where
  reads : e.ReadFor path? (readings steps)
  compiles : ∀ key source answer, (⟨.compile key source, answer⟩ : Step) ∈ steps →
    CompiledFor path? key
  executes : ∀ t ∈ executions steps,
    t = view ∨ ∃ key source, (⟨.compile key source, .ok t⟩ : Step) ∈ steps
  identity : path? = none → ∃ t, (⟨.compile identityKey identitySource, .ok t⟩ : Step) ∈ steps

variable {e} {view : Compiled} {path? : Option String} {steps more : List Step}

/-- What is not about files may follow, if only what is known is executed. -/
theorem Lays.append (h : e.Lays view path? steps) (hq : ∀ step ∈ more, step.1.Quiet)
    (hx : ∀ t ∈ executions more,
      t = view ∨ ∃ key source, (⟨.compile key source, .ok t⟩ : Step) ∈ steps) :
    e.Lays view path? (steps ++ more) where
  reads := by
    rw [readings_append, readings_of_quiet hq, List.append_nil]
    exact h.reads
  compiles key source answer hm := by
    rcases List.mem_append.1 hm with hm | hm
    · exact h.compiles key source answer hm
    · exact (hq _ hm).elim
  executes t ht := by
    rw [executions_append, List.mem_append] at ht
    refine (ht.elim (h.executes t) (hx t)).imp_right fun ⟨key, source, hm⟩ => ?_
    exact ⟨key, source, List.mem_append_left _ hm⟩
  identity hp := (h.identity hp).imp fun _ => List.mem_append_left _

/-- What is not about files may come before. -/
theorem Lays.prepend (h : e.Lays view path? steps) (hq : ∀ step ∈ more, step.1.Quiet)
    (hx : executions more = []) : e.Lays view path? (more ++ steps) where
  reads := by
    rw [readings_append, readings_of_quiet hq, List.nil_append]
    exact h.reads
  compiles key source answer hm := by
    rcases List.mem_append.1 hm with hm | hm
    · exact (hq _ hm).elim
    · exact h.compiles key source answer hm
  executes t ht := by
    rw [executions_append, hx, List.nil_append] at ht
    refine (h.executes t ht).imp_right fun ⟨key, source, hm⟩ => ?_
    exact ⟨key, source, List.mem_append_right _ hm⟩
  identity hp := (h.identity hp).imp fun _ => List.mem_append_right _

variable (e) in
/-- The name of a chosen layout; the one that writes the body alone has none. -/
def nameOf : LayoutChoice → Option String
  | .identity => none
  | .named name => some name
  | .byDefault => e.config.defaultLayoutName?

variable (e) in
/-- The layout of a name, or the one that writes the body alone. -/
def loadNamed (name? : Option String) : Attempt Compiled :=
  match name? with
  | some name => e.loadLayout name
  | none => identityLayout

theorem Readying.not_compile {source key text : String}
    (h : e.Readying source (.compile key text)) : False := by
  cases h with
  | registering _ h => cases h

theorem Readying.not_execute {source : String} {t : Compiled} {locals : Fields} {scope : Scope}
    (h : e.Readying source (.execute t locals scope)) : False := by
  cases h with
  | registering _ h => cases h

theorem Readying.eq_partial {source path : String} (h : e.Readying source (.read path)) :
    e.config.caching = false ∧
      ∃ name, path = Files.join e.config.partialsPath (name ++ e.config.extname) := by
  cases h with
  | registering hoff h =>
    cases h with
    | read hp =>
      obtain ⟨name, -, rfl⟩ := List.mem_map.1 hp
      exact ⟨hoff, name, rfl⟩

theorem compiled_identity :
    compiled identityKey identitySource = .ok ⟨identityKey, identityKey⟩ := by
  have husable : Engine.Usable ⟨{}⟩ .empty .identity identitySource := usable_identity
  obtain ⟨elements, he⟩ := husable.compiles
  rw [compiled, he]

theorem identityLayout_run (w : World) : ∃ v, Program.run identityLayout w =
    ⟨.ok ⟨identityKey, identityKey⟩, v,
      [⟨.compile identityKey identitySource, .ok ⟨identityKey, identityKey⟩⟩]⟩ := by
  have hanswer : (w.perform (.compile identityKey identitySource)).1 =
      .ok ⟨identityKey, identityKey⟩ := by
    rw [perform_compile, compiled_identity]
  rw [identityLayout, Attempt.of_eq, request_run, hanswer]
  exact ⟨_, rfl⟩

theorem identityLayout_lays (view : Compiled) (w : World) :
    let run := Program.run identityLayout w
    e.Lays view none run.steps ∧ ∀ t, run.result = .ok t →
      ∃ key source, (⟨.compile key source, .ok t⟩ : Step) ∈ run.steps := by
  obtain ⟨v, hrun⟩ := identityLayout_run w
  rw [hrun]
  refine ⟨⟨rfl, fun key source answer hm => ?_, fun t ht => (List.not_mem_nil ht).elim,
    fun _ => ⟨_, List.mem_singleton_self _⟩⟩, ?_⟩
  · cases List.mem_singleton.1 hm
    rfl
  · rintro _ ⟨⟩
    exact ⟨_, _, List.mem_singleton_self _⟩

theorem lays_unread (view : Compiled) (path : String) (err : ViewError) :
    e.Lays view (some path) [⟨.read path, .error err⟩] where
  reads := ⟨[], rfl, nofun⟩
  compiles key source answer hm := by cases List.mem_singleton.1 hm
  executes t ht := by cases ht
  identity := nofun

theorem lays_read (view : Compiled) (path : String) {source : String} {before : List Step}
    (h : ∀ step ∈ before, e.Readying source step.1) (i : Option Nat)
    (answer : Except ViewError Compiled) :
    e.Lays view (some path) (⟨.read path, .ok source⟩ ::
      (before ++ [⟨.compile (keyOf .layout path i) source, answer⟩])) where
  reads := by
    refine ⟨readings before, congrArg (path :: ·) ?_, fun other ho => ?_⟩
    · exact List.filterMap_append.trans (List.append_nil _)
    · obtain ⟨answer, hm⟩ := mem_readings ho
      exact (h _ hm).eq_partial
  compiles key text answer' hm := by
    rcases List.mem_cons.1 hm with hm | hm
    · cases hm
    rcases List.mem_append.1 hm with hm | hm
    · exact (h _ hm).not_compile.elim
    · cases List.mem_singleton.1 hm
      exact ⟨i, rfl⟩
  executes t ht := by
    obtain ⟨locals, scope, answer, hm⟩ := mem_executions ht
    rcases List.mem_cons.1 hm with hm | hm
    · cases hm
    rcases List.mem_append.1 hm with hm | hm
    · exact (h _ hm).not_execute.elim
    · cases List.mem_singleton.1 hm
  identity := nofun

theorem loadLayout_lays (view : Compiled) (name : String) (w : World) :
    let run := Program.run (e.loadLayout name) w
    e.Lays view (some (e.resolver.layoutPath name)) run.steps ∧ ∀ t, run.result = .ok t →
      ∃ key source, (⟨.compile key source, .ok t⟩ : Step) ∈ run.steps := by
  have hload := e.loadFile_run .layout (e.resolver.layoutPath name) w
  rw [loadLayout_eq, Program.run_bind]
  generalize Program.run (e.loadFile .layout (e.resolver.layoutPath name)) w = loaded at hload ⊢
  obtain ⟨result, v, steps⟩ := loaded
  cases hread : readText w.files (e.resolver.layoutPath name) with
  | error err =>
    rw [hread] at hload
    obtain ⟨rfl, rfl⟩ := hload
    exact ⟨lays_unread view _ err, fun t ht => by cases ht⟩
  | ok source =>
    rw [hread] at hload
    obtain ⟨before, i, answer, hbefore, rfl, rfl⟩ := hload
    have hlays := lays_read view (e.resolver.layoutPath name) hbefore i answer
    cases answer with
    | error err => exact ⟨by simpa [Except.map] using hlays, fun t ht => by cases ht⟩
    | ok template =>
      refine ⟨by simpa [Except.map] using hlays, ?_⟩
      rintro _ ⟨⟩
      exact ⟨keyOf .layout (e.resolver.layoutPath name) i, source, by simp [Except.map]⟩

theorem loadNamed_lays (view : Compiled) (name? : Option String) (w : World) :
    let run := Program.run (e.loadNamed name?) w
    e.Lays view (name?.map e.resolver.layoutPath) run.steps ∧ ∀ t, run.result = .ok t →
      ∃ key source, (⟨.compile key source, .ok t⟩ : Step) ∈ run.steps := by
  cases name? with
  | some name => exact loadLayout_lays view name w
  | none => exact identityLayout_lays view w

theorem finish_quiet (q : Query) (p : Prepared) (w : World) :
    let run := Program.run (e.finish q.logical (e.merged q) q.request p) w
    (∀ step ∈ run.steps, step.1.Quiet) ∧
      ∀ t ∈ executions run.steps, t = p.view ∨ p.layout = some t := by
  have hasks : Asks Request.Quiet (e.finish q.logical (e.merged q) q.request p) :=
    (e.finish_asks ..).mono fun r h => by cases h; trivial
  refine ⟨hasks.steps w, fun t ht => ?_⟩
  rw [(finish_run q p w).2.2] at ht
  split at ht
  · exact .inl (List.mem_singleton.1 ht)
  · exact (List.mem_cons.1 ht).imp_right Option.mem_toList.1

/-- What becomes of the default layout when it was loaded. -/
def keepDefault : Except ViewError Compiled → Program (Option Compiled)
  | .ok layout => .ask (.storeDefault layout) fun _ => .done (some layout)
  | .error _ => .done none

/-- The default layout is loaded when there is none in the cache. -/
theorem defaultLayout_run {w : World} (h : w.cache.defaultLayout? = none) :
    let load := Program.run (e.loadNamed e.config.defaultLayoutName?) w
    ∃ more, ((e.defaultLayout).run w).steps = ⟨.recallDefault, none⟩ :: (load.steps ++ more) ∧
      ((e.defaultLayout).run w).result = load.result.toOption ∧
      ∀ step ∈ more, step.1.Quiet ∧ step.executed? = none := by
  have hrun : (e.defaultLayout).run w =
      let rest := (Program.bind (e.loadNamed e.config.defaultLayoutName?) keepDefault).run w
      { rest with steps := ⟨.recallDefault, none⟩ :: rest.steps } := by
    rw [defaultLayout, Program.bind_eq, request_bind, run_ask, World.perform_recallDefault, h]
    rfl
  rw [hrun, run_bind]
  generalize Program.run (e.loadNamed e.config.defaultLayoutName?) w = load
  obtain ⟨result, v, steps⟩ := load
  cases result with
  | error err => exact ⟨[], rfl, rfl, nofun⟩
  | ok layout =>
    refine ⟨_, rfl, rfl, fun step hm => ?_⟩
    obtain rfl := List.mem_singleton.1 hm
    exact ⟨trivial, rfl⟩

theorem eq_ok_of_toOption {α β : Type} {x : Except α β} {b : β} (h : x.toOption = some b) :
    x = .ok b := by
  cases x with
  | error a => cases h
  | ok c => exact congrArg Except.ok (Option.some.inj h)

theorem executions_of_none {steps : List Step} (h : ∀ step ∈ steps, step.executed? = none) :
    executions steps = [] := List.filterMap_eq_nil_iff.2 h

/-- With a layout of its own a render only executes what it has. -/
theorem resume_some (q : Query) (view layout : Compiled) :
    e.resume q ⟨view, some layout⟩ =
      e.finish q.logical (e.merged q) q.request ⟨view, some layout⟩ :=
  e.resume_eq q _

theorem resume_none (q : Query) (view : Compiled) :
    e.resume q ⟨view, none⟩ = e.defaultLayout.bind fun layout =>
      e.finish q.logical (e.merged q) q.request ⟨view, layout⟩ :=
  e.resume_eq q _

theorem layoutFor_of_ne {choice : LayoutChoice} (h : choice ≠ .byDefault) :
    e.layoutFor choice = some <$> e.loadNamed (e.nameOf choice) := by
  cases choice with
  | byDefault => exact absurd rfl h
  | identity => rfl
  | named name => rfl

/-- A layout that the view or the variables choose is loaded and nothing else. -/
theorem conclude_chosen {q : Query} {source : String} {choice : LayoutChoice} (view : Compiled)
    (w : World) (h : chooseLayout (e.merged q) source = choice) (hne : choice ≠ .byDefault) :
    e.Lays view ((e.nameOf choice).map e.resolver.layoutPath)
      (Program.run (e.conclude q view source) w).steps := by
  have hload := loadNamed_lays (e := e) view (e.nameOf choice) w
  rw [conclude, h, layoutFor_of_ne hne, Attempt.map_eq, run_bind, run_bind]
  generalize Program.run (e.loadNamed (e.nameOf choice)) w = load at hload ⊢
  obtain ⟨result, v, steps⟩ := load
  obtain ⟨hlays, hmade⟩ := hload
  cases result with
  | error err =>
    show e.Lays view _ (steps ++ [] ++ [])
    rwa [List.append_nil, List.append_nil]
  | ok layout =>
    let stored : Request := .storeEntry q.logical ⟨view, some layout⟩
    let w' := (v.perform stored).2
    obtain ⟨hquiet, hexecutes⟩ := finish_quiet (e := e) q ⟨view, some layout⟩ w'
    show e.Lays view _ (steps ++ [] ++
      ⟨stored, ()⟩ :: (Program.run (e.resume q ⟨view, some layout⟩) w').steps)
    rw [List.append_nil, resume_some]
    refine hlays.append (List.forall_mem_cons.2 ⟨trivial, hquiet⟩) fun t ht => ?_
    refine (hexecutes t ht).imp_right fun ho => ?_
    obtain rfl := Option.some.inj ho
    exact hmade layout rfl

/-- Otherwise the default layout is, or the one that writes the body alone if there is none. -/
theorem conclude_byDefault {q : Query} {source : String} (view : Compiled) {w : World}
    (h : chooseLayout (e.merged q) source = .byDefault) (hcache : w.cache.defaultLayout? = none) :
    e.Lays view ((e.nameOf .byDefault).map e.resolver.layoutPath)
      (Program.run (e.conclude q view source) w).steps := by
  let stored : Request := .storeEntry q.logical ⟨view, none⟩
  let w' := (w.perform stored).2
  have hcache' : w'.cache.defaultLayout? = none := by
    rw [show w'.cache = w.cache.insert q.logical ⟨view, none⟩ from rfl,
      Cache.defaultLayout?_insert, hcache]
  obtain ⟨hlays, hmade⟩ := loadNamed_lays (e := e) view e.config.defaultLayoutName? w'
  obtain ⟨more, hsteps, hresult, hmore⟩ := defaultLayout_run (e := e) hcache'
  rw [conclude, h, layoutFor, Attempt.pure_eq, run_bind]
  show e.Lays view _ ([] ++ ⟨stored, ()⟩ :: (Program.run (e.resume q ⟨view, none⟩) w').steps)
  rw [resume_none, run_bind]
  simp only [hsteps, hresult]
  obtain ⟨hquiet, hexecutes⟩ := finish_quiet (e := e) q
    ⟨view, (Program.run (e.loadNamed e.config.defaultLayoutName?) w').result.toOption⟩
    (e.defaultLayout.run w').world
  have hsilent := executions_of_none fun step hm => (hmore step hm).2
  have hfirst : ∀ step ∈ ([⟨stored, ()⟩, ⟨.recallDefault, none⟩] : List Step), step.1.Quiet := by
    simp [Request.Quiet, stored]
  have hlong := (hlays.append (fun step hm => (hmore step hm).1) fun t ht =>
    (List.not_mem_nil (hsilent ▸ ht)).elim).prepend hfirst rfl
  refine hlong.append hquiet fun t ht => (hexecutes t ht).imp_right fun ho => ?_
  obtain ⟨key, source, hm⟩ := hmade t (eq_ok_of_toOption ho)
  exact ⟨key, source, List.mem_append_right _ (List.mem_append_left _ hm)⟩

/-- **What a render does once its view is compiled** is about the layout of its choice. -/
theorem conclude_lays (q : Query) (view : Compiled) (source : String) {w : World}
    (hcache : w.cache.defaultLayout? = none) :
    e.Lays view ((e.nameOf (chooseLayout (e.merged q) source)).map e.resolver.layoutPath)
      (Program.run (e.conclude q view source) w).steps := by
  by_cases h : chooseLayout (e.merged q) source = .byDefault
  · rw [h]
    exact conclude_byDefault view h hcache
  · exact conclude_chosen view w rfl h

theorem CompiledFor.ne_view {key : String} (h : CompiledFor path? key) (path : String)
    (i : Option Nat) : key ≠ keyOf .view path i := by
  rintro rfl
  have hview : FileKind.opening .view <+: (keyOf .view path i).toList :=
    toList_keyOf .view path i ▸ List.prefix_append _ _
  have hlayout : FileKind.opening .layout <+: (keyOf .view path i).toList := by
    cases path? with
    | none => exact h ▸ by decide
    | some other =>
      obtain ⟨j, hj⟩ := h
      exact hj ▸ toList_keyOf .layout other j ▸ List.prefix_append _ _
  cases opening_inj hview hlayout

/-! ## The view of a render -/

theorem Looking.passes {r : Resolver} {name : String} {x : Request} (h : r.Looking name x) :
    x.Passes := by
  cases h <;> trivial

theorem files_run {α : Type} (p : Program α) (w : World) : (p.run w).world.files = w.files := by
  induction p generalizing w with
  | done a => rfl
  | ask r next ih => exact (ih _ _).trans (World.files_perform w r)

theorem compile_notMem {α : Type} {P : Request → Prop} {p : Program α} (hp : p.Asks P)
    (h : ∀ key text, ¬ P (.compile key text)) (w : World) (key text : String)
    (answer : Except ViewError Compiled) :
    (⟨.compile key text, answer⟩ : Step) ∉ (p.run w).steps :=
  fun hm => h key text (hp.steps w _ hm)

theorem compile_inj {key key' text text' : String} {answer answer' : Except ViewError Compiled}
    (h : (⟨.compile key text, answer⟩ : Step) = ⟨.compile key' text', answer'⟩) :
    key = key' ∧ text = text' ∧ answer = answer' := by
  cases h
  exact ⟨rfl, rfl, rfl⟩

/-- What is not among the first elements is among those behind them. -/
theorem behind_of_notMem {α : Type} {a b before after : List α} {c : α} (hc : c ∉ a)
    (h : a ++ b = before ++ c :: after) : ∃ before', b = before' ++ c :: after := by
  rcases List.append_eq_append_iff.1 h with ⟨m, -, hb⟩ | ⟨m, rfl, hm⟩
  · exact ⟨m, hb⟩
  · cases m with
    | nil => exact ⟨[], hm.symm⟩
    | cons x m =>
      obtain rfl := (List.cons.inj hm).1
      exact absurd (List.mem_append_right _ List.mem_cons_self) hc

/-- A view that is not in the cache is read and compiled once. -/
theorem entryFor_concluded {q : Query} {v : World} {before after : List Step}
    {path file source : String} {i : Option Nat} {view : Compiled}
    (hentry : v.cache.get? q.logical = none) (hdefault : v.cache.defaultLayout? = none)
    (h : (Program.run (Program.bind (e.entryFor q.logical file (e.merged q))
      (Attempt.after (e.resume q))) v).steps =
        before ++ ⟨.compile (keyOf .view path i) source, .ok view⟩ :: after) :
    readText v.files file = .ok source ∧ ∃ w, w.cache.defaultLayout? = none ∧
      after = (Program.run (e.conclude q view source) w).steps := by
  have hcache := (e.loadFile_passes .view file).cache v
  have hload := e.loadFile_run .view file v
  rw [entryFor_resume, run_ask, World.perform_recallEntry, hentry] at h
  obtain ⟨before, h⟩ := behind_of_notMem (a := [(⟨.recallEntry q.logical, none⟩ : Step)])
    (fun hm => by cases List.mem_singleton.1 hm) h
  rw [run_bind] at h
  generalize Program.run (e.loadFile .view file) v = load at hcache hload h
  obtain ⟨result, w, steps⟩ := load
  cases hread : readText v.files file with
  | error err =>
    rw [hread] at hload
    obtain ⟨rfl, rfl⟩ := hload
    obtain ⟨before, h⟩ := behind_of_notMem (fun hm => by cases List.mem_singleton.1 hm) h
    exact absurd (h ▸ List.mem_append_right before List.mem_cons_self) List.not_mem_nil
  | ok text =>
    rw [hread] at hload
    obtain ⟨front, j, answer, hfront, rfl, rfl⟩ := hload
    simp only [← List.cons_append, List.append_assoc] at h
    obtain ⟨before, h⟩ := behind_of_notMem (fun hm => by
      rcases List.mem_cons.1 hm with hm | hm
      · cases hm
      · exact (hfront _ hm).not_compile) h
    cases answer with
    | error err =>
      obtain ⟨before, h⟩ := behind_of_notMem (fun hm => by
        cases (compile_inj (List.mem_singleton.1 hm)).2.2) h
      exact absurd (h ▸ List.mem_append_right before List.mem_cons_self) List.not_mem_nil
    | ok template =>
      cases before with
      | nil =>
        obtain ⟨hstep, rfl⟩ := List.cons.inj h
        obtain ⟨-, rfl, hanswer⟩ := compile_inj hstep
        cases hanswer
        exact ⟨rfl, w, hcache ▸ hdefault, rfl⟩
      | cons x before =>
        -- The steps behind are about a layout, so they do not compile the view again.
        have hlays := conclude_lays (e := e) q template text (hcache ▸ hdefault)
        have hsteps : (Program.run (e.conclude q template text) w).steps = _ := (List.cons.inj h).2
        rw [hsteps] at hlays
        have hcompiled := hlays.compiles _ _ _ (List.mem_append_right before List.mem_cons_self)
        exact absurd rfl (hcompiled.ne_view path i)

/-- **The view is compiled once**, and what follows is about its layout. -/
theorem answer_concluded {q : Query} {w : World} {before after : List Step} {path source : String}
    {i : Option Nat} {view : Compiled} (hentry : w.cache.get? q.logical = none)
    (hdefault : w.cache.defaultLayout? = none)
    (h : ((e.answer q).run w).steps =
      before ++ ⟨.compile (keyOf .view path i) source, .ok view⟩ :: after) :
    ∃ file w', ((e.resolver.resolve q.logical).run w).result = some file ∧
      readText w.files file = .ok source ∧ w'.cache.defaultLayout? = none ∧
      after = (Program.run (e.conclude q view source) w').steps := by
  have hresolve := e.resolver.resolve_asks q.logical
  have hscan := e.partials.ensureScanned_asks
  have hcache := (hresolve.mono fun _ h => Looking.passes h).cache w
  have hnot := compile_notMem hresolve (fun _ _ h => by cases h) w (keyOf .view path i) source
    (.ok view)
  rw [answer_eq, run_bind] at h
  obtain ⟨before, h⟩ := behind_of_notMem hnot h
  cases hfile : ((e.resolver.resolve q.logical).run w).result with
  | none =>
    rw [hfile] at h
    exact absurd (h ▸ List.mem_append_right before List.mem_cons_self) List.not_mem_nil
  | some file =>
    rw [hfile, run_bind] at h
    obtain ⟨before, h⟩ := behind_of_notMem (compile_notMem hscan (fun _ _ h => by
      cases h with
      | registering h => cases h) _ _ _ _) h
    have hcache := ((hscan.mono fun _ h => h.passes).cache _).trans hcache
    obtain ⟨hread, w', hw', hafter⟩ := entryFor_concluded (by rwa [hcache]) (by rwa [hcache]) h
    rw [files_run, files_run] at hread
    exact ⟨file, w', rfl, hread, hw', hafter⟩

end Engine

end Views
