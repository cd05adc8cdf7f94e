import Views.Proofs.Engine.Serve
import Views.Proofs.Engine.Seeks

/-!
# The first render of an engine

An engine that has done nothing yet has compiled nothing when it scans the partials, so whatever
they are called they replace nothing that is executed. Its first render prepares what `Engine.plan`
says, and executes it on one registry, which holds it (`fresh_run`).
-/

set_option autoImplicit false

namespace Views

/-! ## Scanning -/

namespace PartialSource

/-- A world that differs in its templates and in what is known of the scan. -/
def Rescanned (w v : World) : Prop :=
  ∃ registry scanned, w.registry.Like registry ∧ v = { w with registry, scanned }

theorem Rescanned.refl (w : World) : Rescanned w w := ⟨w.registry, w.scanned, ⟨rfl, rfl, rfl⟩, rfl⟩

theorem Rescanned.define {w v : World} (h : Rescanned w v) (name : String) (t : Template) :
    Rescanned w (v.define name t) := by
  obtain ⟨registry, scanned, hlike, rfl⟩ := h
  exact ⟨registry.define name t, scanned, ⟨hlike.helpers, hlike.strict, hlike.escaping⟩, rfl⟩

theorem Rescanned.storeScan {w v : World} (h : Rescanned w v) :
    Rescanned w { v with scanned := true } := by
  obtain ⟨registry, scanned, hlike, rfl⟩ := h
  exact ⟨registry, true, hlike, rfl⟩

variable (s : PartialSource) (w : World)

theorem registerFiles_rescanned (paths : List String) (v : World) :
    (s.registerFiles paths).Meets (Rescanned w) Eq (fun _ _ => True) (fun _ _ => True) v := by
  have hfiles (u : World) (hu : Rescanned w u) : u.files = w.files := by
    obtain ⟨_, _, -, rfl⟩ := hu
    rfl
  exact registerFiles_meets (T := fun _ _ => True) [] hfiles (fun _ => trivial)
    (fun _ _ _ _ _ _ => trivial) trivial
    fun _ entry _ _ hu _ => ⟨hu.define entry.1 entry.2, trivial, trivial⟩

/-- A scan changes the templates, and nothing else. -/
theorem ensureScanned_rescanned : Rescanned w (s.ensureScanned.run w).world := by
  have hmeets : s.ensureScanned.Meets (Rescanned w) Eq (fun _ _ => True) (fun _ _ => True) w := by
    unfold ensureScanned
    split
    · refine .bind (.request fun v _ hv => ⟨hv, trivial, ?_⟩)
      show Program.Meets _ _ _ _ (if v.scanned = true then _ else _) v
      split
      · trivial
      · refine .bind ?_
        unfold registerAll
        split
        · refine .bind (.request fun u _ hu => ⟨hu, trivial, ?_⟩)
          rw [show u.perform (.list s.root s.extname) = (u.files.list s.root s.extname, u) from rfl]
          cases u.files.list s.root s.extname with
          | error err => trivial
          | ok paths =>
            refine .bind ((s.registerFiles_rescanned w paths u).mono fun r x _ => ?_)
            obtain ⟨n, all⟩ := r
            cases all with
            | false => trivial
            | true => exact fun y _ hy => ⟨Rescanned.storeScan hy, trivial, trivial⟩
        · trivial
    · trivial
  exact (hmeets.run (fun _ => rfl) (.refl w)).2

end PartialSource

/-! ## The first render -/

namespace Engine

/-- Resolving a name changes nothing but the paths that are kept. -/
theorem resolve_world (r : Resolver) (name : String) (w : World) :
    ∃ paths, ((r.resolve name).run w).world = { w with paths } := by
  have hmeets : (r.resolve name).Meets (fun v => ∃ paths, v = { w with paths }) Eq
      (fun _ _ => True) (fun _ _ => True) w := by
    unfold Resolver.resolve
    split
    · trivial
    · refine .bind (.request fun v _ hv => ⟨hv, trivial, ?_⟩)
      rw [World.perform_recallPath]
      cases v.paths.get? name with
      | some path => trivial
      | none =>
        refine .bind (.request fun u _ hu => ⟨hu, trivial, ?_⟩)
        show Program.Meets _ _ _ _ (if u.files.isFile (r.templatePath name) = true then _ else _) u
        split
        · split
          · rintro x - ⟨paths, rfl⟩
            exact ⟨⟨_, rfl⟩, trivial, trivial⟩
          · trivial
        · trivial
  exact (hmeets.run (fun _ => rfl) ⟨w.paths, rfl⟩).2

end Engine

namespace Setting

open Engine

variable {c : Setting} {w v : World}

/-- As long as nothing is cached a scan keeps the stores steady, if it governs no name. -/
theorem Steady.rescanned (hw : c.Steady w) (hg : ∀ name, ¬ c.governed name) {enabled : Bool}
    (hcache : w.cache = Cache.empty enabled) (h : PartialSource.Rescanned w v) : c.Steady v := by
  obtain ⟨registry, scanned, hlike, rfl⟩ := h
  refine { hw with like := ?_, entries := ?_, default := ?_, partials := ?_, scanned := ?_ }
  · exact ⟨hw.like.helpers.trans hlike.helpers, hw.like.strict.trans hlike.strict,
      hw.like.escaping.trans hlike.escaping⟩
  · intro name entry h
    rw [show w.cache.get? name = none from hcache ▸ ite_self _] at h
    cases h
  · intro t h
    rw [show w.cache.defaultLayout? = none from hcache ▸ ite_self _] at h
    cases h
  · exact fun name h => (hg name h).elim
  · exact fun _ name h => (hg name h).elim

theorem prepare_fresh {q : Query} (hg : ∀ name, ¬ c.governed name) (hn : ∀ name, ¬ c.cached name)
    (hc : c.chosen q.logical = some (c.engine.ownChoice c.files q)) :
    let run := Program.run (c.engine.prepare q.logical (c.engine.merged q))
      (c.engine.world c.base c.files)
    c.Steady run.world ∧ (∃ i j, c.engine.Numbered i ∧ c.engine.Numbered j ∧
      run.result = c.engine.plan c.files q.logical (c.engine.ownChoice c.files q) i j) ∧
      ∀ p, run.result = .ok p → c.Ready q.logical (c.engine.ownChoice c.files q) p run.world := by
  -- With no name governed the partials of the scan need not agree with those of markers.
  have hsettled (o : Origin) : c.SettledAt o := fun _ _ _ entry _ h => (hg entry.1 h).elim
  have hstart := steady_world hn
  obtain ⟨hresult, hresolved⟩ := (resolve_safe q.logical).run Later.refl hstart
  obtain ⟨paths, hworld⟩ := resolve_world c.engine.resolver q.logical
    (c.engine.world c.base c.files)
  have hscanned := c.engine.partials.ensureScanned_rescanned
    ((c.engine.resolver.resolve q.logical).run (c.engine.world c.base c.files)).world
  -- Up to here the cache is empty, so the scan can have replaced nothing that is held.
  have hsteady := hresolved.rescanned hg (by rw [hworld]; rfl) hscanned
  rw [prepare_eq, Program.run_bind]
  simp only [hresult]
  by_cases hf : c.engine.found c.files q.logical = true
  · rw [if_pos hf]
    simp only
    rw [Program.run_bind]
    have hrest := (assemble_meets (R := Eq) (G := fun _ _ => True) (c.engine.merged q)
      hsteady (fun u v h => h ▸ .refl u) (fun _ _ _ => trivial) (fun name h => (hg name h).elim) hf
      hc (.inr chooseLayout_of_ownChoice) (hsettled _) (hsettled _)).run (fun _ => rfl) hsteady
    rw [assemble_eq] at hrest
    obtain ⟨⟨hend, hplan, hready⟩, -⟩ := hrest
    exact ⟨hend, hplan, fun p hp => (hready p hp).1⟩
  · obtain ⟨i, hi⟩ := exists_numbered c.engine
    rw [if_neg hf]
    refine ⟨hresolved, ⟨i, i, hi, hi, ?_⟩, fun p hp => by cases hp⟩
    rw [plan, if_neg hf]
    rfl

end Setting

namespace Engine

/-- A render that cannot be prepared ends with the error, and nothing else happens. -/
theorem answer_run_error {e : Engine} {q : Query} {w : World} {err : ViewError}
    (h : (Program.run (e.prepare q.logical (e.merged q)) w).result = .error err) :
    ((e.answer q).run w).result = .error err ∧
      ((e.answer q).run w).world = (Program.run (e.prepare q.logical (e.merged q)) w).world ∧
      executions ((e.answer q).run w).steps = [] := by
  have hsilent := (e.prepare_seeks q.logical (e.merged q)).executions (fun _ _ _ => id) w
  rw [answer_bind, Program.run_bind]
  simp only [h, Attempt.after_error, Program.run_done, List.append_nil, true_and]
  exact hsilent

/-- What executing a plan on one registry gives. -/
def concluded (e : Engine) (files : Files.FileTree) (q : Query) (r : Registry)
    (i j : Option Nat) : Except ViewError String :=
  match e.plan files q.logical (e.ownChoice files q) i j with
  | .error err => .error err
  | .ok p => e.finished q p r r

/-- A registry holds all that is planned. -/
def Stocked (e : Engine) (files : Files.FileTree) (q : Query) (r : Registry)
    (i j : Option Nat) : Prop :=
  ∀ p, e.plan files q.logical (e.ownChoice files q) i j = .ok p →
    e.Held files r (.view q.logical) p.view ∧ ∀ t, p.layout = some t →
      e.Held files r (e.originOf (e.ownChoice files q)) t

theorem concluded_of_error {e : Engine} {files : Files.FileTree} {q : Query} {r : Registry}
    {i j : Option Nat} {err : ViewError}
    (h : e.plan files q.logical (e.ownChoice files q) i j = .error err) :
    e.concluded files q r i j = .error err := by
  rw [concluded, h]

theorem concluded_of_ok {e : Engine} {files : Files.FileTree} {q : Query} {r : Registry}
    {i j : Option Nat} {p : Prepared}
    (h : e.plan files q.logical (e.ownChoice files q) i j = .ok p) :
    e.concluded files q r i j = e.finished q p r r := by
  rw [concluded, h]

/-- The first render of an engine prepares what was planned, and executes the view and then the
layout on one registry. -/
theorem fresh_answer {config : Config} {r base : Registry} {e : Engine}
    (hb : build config r = .ok (e, base)) (files : Files.FileTree) (q : Query) :
    let run := (e.answer q).run (e.world base files)
    base.Like run.world.registry ∧ ∃ i j, e.Numbered i ∧ e.Numbered j ∧
      e.Stocked files q run.world.registry i j ∧
      match e.plan files q.logical (e.ownChoice files q) i j with
      | .error err => run.result = .error err ∧ executions run.steps = []
      | .ok p => run.result = e.finished q p run.world.registry run.world.registry ∧
          executions run.steps =
            match run.world.registry.ran p.view (e.merged q) (e.startScope q) with
            | .error _ => [p.view]
            | .ok _ => p.view :: p.layout.toList := by
  obtain ⟨rfl, hv, -⟩ := of_build hb
  let c : Setting :=
    { engine := e, base, files
      governed := fun _ => False
      chosen := fun _ => some (e.ownChoice files q)
      cached := fun _ => False
      valid := hv
      plain := Setting.plain_of_ungoverned }
  obtain ⟨hsteady, ⟨i, j, hi, hj, hplan⟩, hready⟩ :=
    c.prepare_fresh (q := q) (fun _ h => h) (fun _ h => h) rfl
  intro run
  cases hp : e.plan files q.logical (e.ownChoice files q) i j with
  | error err =>
    obtain ⟨hresult, hworld, hexecutions⟩ := answer_run_error (hplan.trans hp)
    rw [show run.world = _ from hworld]
    refine ⟨hsteady.like, i, j, hi, hj, fun p h => ?_, ?_⟩
    · cases hp.symm.trans h
    rw [hp]
    exact ⟨hresult, hexecutions⟩
  | ok p =>
    obtain ⟨hresult, hworld, hexecutions⟩ := answer_run (hplan.trans hp) rfl
    have hready := hready p (hplan.trans hp)
    rw [show run.world = _ from hworld]
    refine ⟨hsteady.like, i, j, hi, hj, fun p' h => ?_, ?_⟩
    · cases hp.symm.trans h
      exact ⟨hready.view, hready.layout⟩
    · rw [hp]
      exact ⟨hresult, hexecutions⟩

/-- **The first render of an engine** ends with what executing its plan gives. -/
theorem fresh_run {config : Config} {r base : Registry} {e : Engine}
    (hb : build config r = .ok (e, base)) (files : Files.FileTree) (q : Query) :
    let run := (e.answer q).run (e.world base files)
    base.Like run.world.registry ∧ ∃ i j, e.Numbered i ∧ e.Numbered j ∧
      run.result = e.concluded files q run.world.registry i j ∧
      e.Stocked files q run.world.registry i j := by
  obtain ⟨hlike, i, j, hi, hj, hstocked, hplan⟩ := fresh_answer hb files q
  refine ⟨hlike, i, j, hi, hj, ?_, hstocked⟩
  cases hp : e.plan files q.logical (e.ownChoice files q) i j with
  | error err =>
    rw [hp] at hplan
    exact hplan.1.trans (concluded_of_error hp).symm
  | ok p =>
    rw [hp] at hplan
    exact hplan.1.trans (concluded_of_ok hp).symm

end Engine

end Views
