import Views.Proofs.Engine.Prepare

/-!
# Outcomes of renders

`Engine.finished` is what executing a prepared view and its layout gives, as a function of the
registries at the two executions. A render ends with what was planned, executed on registries that
hold it (`Setting.answer_meets`). Whether that is one result or depends on what else the registries
hold is a question about the templates: `Engine.Determined` says that it does not, and then all
outcomes of a render are alike (`Rendered.alike`).
-/

set_option autoImplicit false

namespace Views

/-! ## Results that are alike -/

/-- The variants of errors. -/
inductive ViewError.Variant where
  | badOptions
  | missingTemplate
  | io
  | compile
  | execute
  | layoutUnavailable
  | notAttached
  deriving DecidableEq

/-- The variant of an error. -/
def ViewError.variant : ViewError → ViewError.Variant
  | badOptions _ _ => .badOptions
  | missingTemplate _ => .missingTemplate
  | io _ _ => .io
  | compile _ _ => .compile
  | execute _ _ => .execute
  | layoutUnavailable _ => .layoutUnavailable
  | notAttached => .notAttached

/-- The same value or the same variant of an error. -/
def Alike {α : Type} (r r' : Except ViewError α) : Prop :=
  r.mapError ViewError.variant = r'.mapError ViewError.variant

namespace Alike

variable {α : Type} {r r' : Except ViewError α}

/-- Results that are alike in some respect are both values or both errors. -/
theorem cases {β : Type} {f : α → β} (h : Alike (r.map f) (r'.map f)) :
    (∃ a a', r = .ok a ∧ r' = .ok a' ∧ f a = f a') ∨
      ∃ err err', r = .error err ∧ r' = .error err' ∧ err.variant = err'.variant := by
  cases r <;> cases r' <;> simp_all [Alike, Except.mapError, Except.map]

theorem map {β : Type} (h : Alike r r') (f : α → β) : Alike (r.map f) (r'.map f) := by
  cases r <;> cases r' <;> simp_all [Alike, Except.mapError, Except.map]

theorem error {err err' : ViewError} (h : err.variant = err'.variant) :
    Alike (.error err : Except ViewError α) (.error err') :=
  congrArg Except.error h

end Alike

/-! ## Executions -/

/-- What executing a compiled template gives: its output and the scope that it leaves. -/
def Registry.ran (r : Registry) (t : Compiled) (locals : Fields) (scope : Scope) :
    Except ViewError (String × Scope) :=
  (r.execute t (.object locals) scope).1.map fun out =>
    (out, (r.execute t (.object locals) scope).2)

namespace Engine

variable (e : Engine)

/-- The scope that a render starts with. -/
def startScope (q : Query) : Scope := Scope.withData (e.scopeData q.request)

/-- The variables of a layout. -/
def layoutLocals (q : Query) (body : String) : Fields :=
  Table.insert (e.merged q) "body" (.string body)

/-- What executing the view on one registry and the layout on another gives. -/
def finished (q : Query) (p : Prepared) (r r' : Registry) : Except ViewError String := do
  let (body, scope) ← r.ran p.view (e.merged q) (e.startScope q)
  match p.layout with
  | none => throw (.layoutUnavailable q.logical)
  | some layout => (r'.ran layout (e.layoutLocals q body) scope).map Prod.fst

variable {e} in
theorem finished_of_error {q : Query} {p : Prepared} {r r' : Registry} {err : ViewError}
    (h : r.ran p.view (e.merged q) (e.startScope q) = .error err) :
    e.finished q p r r' = .error err := by
  rw [finished, h]
  rfl

variable {e} in
theorem finished_of_ok {q : Query} {p : Prepared} {r r' : Registry} {body : String} {scope : Scope}
    (h : r.ran p.view (e.merged q) (e.startScope q) = .ok (body, scope)) :
    e.finished q p r r' = match p.layout with
      | none => .error (.layoutUnavailable q.logical)
      | some layout => (r'.ran layout (e.layoutLocals q body) scope).map Prod.fst := by
  rw [finished, h]
  rfl

theorem execute_meets {I : World → Prop} {R G : World → World → Prop} {w : World} (t : Compiled)
    (locals : Fields) (scope : Scope) (hG : ∀ v, G v v) :
    Program.Meets I R G (fun r v => R w v ∧ I v ∧ r = v.registry.ran t locals scope)
      (execute t locals scope) w := by
  rw [execute_eq]
  exact fun v hr hv => ⟨hv, hG v, hr, hv, rfl⟩

end Engine

/-! ## Numbers -/

namespace Engine

variable {e : Engine} {files : Files.FileTree}

/-- Whether and how an origin fails to load does not depend on the number in its key. -/
theorem load_alike (e : Engine) (files : Files.FileTree) (o : Origin) (i j : Option Nat) :
    Alike ((e.load files o i).map fun _ => ()) ((e.load files o j).map fun _ => ()) := by
  unfold load
  cases e.textOf files o with
  | error err => rfl
  | ok text =>
    show Alike ((compiled _ text).map _) ((compiled _ text).map _)
    unfold compiled
    cases Template.elementsOf text false <;> rfl

theorem plan_alike (e : Engine) (files : Files.FileTree) (logical : String) (choice : LayoutChoice)
    (i j i' j' : Option Nat) :
    Alike ((e.plan files logical choice i j).map fun p => p.layout.isSome)
      ((e.plan files logical choice i' j').map fun p => p.layout.isSome) := by
  unfold plan
  split
  · rcases (load_alike e files (.view logical) i i').cases with
      ⟨t, t', hi, hi', -⟩ | ⟨err, err', hi, hi', hv⟩
    · rw [hi, hi']
      rcases (load_alike e files (e.originOf choice) j j').cases with
        ⟨l, l', hj, hj', -⟩ | ⟨err, err', hj, hj', hv⟩
      · cases choice <;> simp only [planLayout, hj, hj'] <;> rfl
      · cases choice with
        | byDefault => simp only [planLayout, hj, hj']; rfl
        | identity => simp only [planLayout, hj, hj']; exact .error hv
        | named name => simp only [planLayout, hj, hj']; exact .error hv
    · rw [hi, hi']
      exact .error hv
  · rfl

/-- A layout that can be loaded is prepared. -/
theorem exists_layout_of_plan {logical : String} {choice : LayoutChoice} {i j k : Option Nat}
    {p : Prepared} {t : Compiled} (h : e.plan files logical choice i j = .ok p)
    (ht : e.load files (e.originOf choice) k = .ok t) : ∃ u, p.layout = some u := by
  have hload := load_alike e files (e.originOf choice) k j
  rw [ht] at hload
  rcases hload.cases with ⟨-, u, -, hu, -⟩ | ⟨_, _, he, -⟩
  · have hl : e.planLayout files choice j = .ok (some u) := by
      by_cases hc : choice = .byDefault
      · subst hc
        rw [planLayout, hu]
        rfl
      · rw [planLayout_of_ne hc, hu]
        rfl
    unfold plan at h
    split at h
    · rw [hl] at h
      cases hv : e.load files (.view logical) i with
      | error err => rw [hv] at h; cases h
      | ok v => rw [hv] at h; cases h; exact ⟨u, rfl⟩
    · cases h
  · cases he

end Engine

namespace Setting

open Engine

variable {c : Setting} {w : World}

/-- A render ends with what was planned, executed on registries that hold it. -/
def Rendered (c : Setting) (q : Query) (choice : LayoutChoice) (result : Except ViewError String) :
    Prop :=
  ∃ i j, c.engine.Numbered i ∧ c.engine.Numbered j ∧
    match c.engine.plan c.files q.logical choice i j with
    | .error err => result = .error err
    | .ok p => ∃ v u, c.Steady v ∧ c.Ready q.logical choice p v ∧ c.Steady u ∧
        c.Ready q.logical choice p u ∧ result = c.engine.finished q p v.registry u.registry

theorem finish_meets {R G : World → World → Prop} {q : Query} {choice : LayoutChoice} {p : Prepared}
    (hw : c.Ready q.logical choice p w) (hR : ∀ u v, R u v → c.Later u v) (hG : ∀ v, G v v) :
    Program.Meets c.Steady R G (fun result x => c.Steady x ∧ c.Later w x ∧ ∃ v u, c.Steady v ∧
      c.Ready q.logical choice p v ∧ c.Steady u ∧ c.Ready q.logical choice p u ∧
      result = c.engine.finished q p v.registry u.registry)
      (c.engine.finish q.logical (c.engine.merged q) q.request p) w := by
  rw [finish_eq]
  refine Program.Meets.attempt ((execute_meets _ _ _ hG).mono ?_)
  rintro r v ⟨hl, hv, hr⟩
  have hlv := hR _ _ hl
  have hready := hw.later hlv
  cases r with
  | error err =>
    exact ⟨hv, hlv, v, v, hv, hready, hv, hready, (finished_of_error hr.symm).symm⟩
  | ok a =>
    obtain ⟨body, scope⟩ := a
    have hfin (x : Registry) : c.engine.finished q p v.registry x = _ := finished_of_ok hr.symm
    cases hp : p.layout with
    | none =>
      simp only [hp] at hfin
      exact ⟨hv, hlv, v, v, hv, hready, hv, hready, (hfin v.registry).symm⟩
    | some layout =>
      simp only [hp] at hfin
      refine Program.Meets.attempt ((execute_meets _ _ _ hG).mono ?_)
      rintro r' u ⟨hl', hu, hr'⟩
      have hlu := hR _ _ hl'
      have hfin : c.engine.finished q p v.registry u.registry = r'.map Prod.fst := by
        rw [hfin, hr', layoutLocals]
      cases r' with
      | error err =>
        exact ⟨hu, hlv.trans hlu, v, u, hv, hready, hu, hready.later hlu, hfin.symm⟩
      | ok a =>
        exact ⟨hu, hlv.trans hlu, v, u, hv, hready, hu, hready.later hlu, hfin.symm⟩

/-- **What a render ends with.** -/
theorem answer_meets {R G : World → World → Prop} {q : Query} {choice : LayoutChoice}
    (hw : c.Steady w) (hR : ∀ u v, R u v → c.Later u v) (hG : ∀ u v, c.Later u v → G u v)
    (hscan : ∀ w, c.Steady w → c.engine.partials.ensureScanned.Meets c.Steady R G (fun _ v =>
      c.Steady v ∧ ∀ name, c.governed name →
        v.registry.templates.get? name = (c.engine.scanned c.base c.files).get? name) w)
    (hc : c.chosen q.logical = some choice)
    (hown : c.cached q.logical ∨ ∀ text, c.engine.textOf c.files (.view q.logical) = .ok text →
      chooseLayout (c.engine.merged q) text = choice)
    (hsv : c.SettledAt (.view q.logical)) (hsl : c.SettledAt (c.engine.originOf choice)) :
    (c.engine.answer q).Meets c.Steady R G (fun result v => c.Steady v ∧
      c.Rendered q choice result ∧ ((∃ i j p, c.engine.plan c.files q.logical choice i j = .ok p) →
        c.engine.config.caching = true → (v.cache.get? q.logical).isSome = true)) w := by
  rw [answer_bind]
  refine Program.Meets.attempt ((prepare_meets hw hR hG hscan hc hown hsv hsl).mono ?_)
  rintro r v ⟨hv, ⟨i, j, hi, hj, hr⟩, hready⟩
  cases r with
  | error err =>
    refine ⟨hv, ⟨i, j, hi, hj, ?_⟩, ?_⟩
    · rw [← hr]
    · rintro ⟨i', j', p, hp⟩
      have := plan_alike c.engine c.files q.logical choice i j i' j'
      rw [← hr, hp] at this
      cases this
  | ok p =>
    obtain ⟨hready, hcached⟩ := hready p rfl
    refine (finish_meets hready hR fun v => hG v v (.refl v)).mono ?_
    rintro result x ⟨hx, hl, hresult⟩
    refine ⟨hx, ⟨i, j, hi, hj, ?_⟩, fun _ hon => hl.kept _ (hcached hon)⟩
    rw [← hr]
    exact hresult

end Setting

/-! ## Templates that determine the outcome -/

namespace Engine

variable (e : Engine) (files : Files.FileTree)

/-- A registry that fits, and the key under which it holds the text of an origin. -/
def Hosts (fits : Registry → Prop) (numbers : Option Nat → Prop) (o : Origin) (r : Registry)
    (key : String) : Prop :=
  fits r ∧ ∃ text i, e.textOf files o = .ok text ∧ numbers i ∧ key = e.keyFor o i ∧ r.Holds key text

/-- All registries that fit give one outcome to the executions of a render, up to `rel`. -/
structure Determined (fits : Registry → Prop) (numbers : Option Nat → Prop)
    (rel : Except ViewError (String × Scope) → Except ViewError (String × Scope) → Prop)
    (q : Query) : Prop where
  view : ∀ r key r' key', e.Hosts files fits numbers (.view q.logical) r key →
    e.Hosts files fits numbers (.view q.logical) r' key' →
    rel (r.ran ⟨key, key⟩ (e.merged q) (e.startScope q))
      (r'.ran ⟨key', key'⟩ (e.merged q) (e.startScope q))
  layout : ∀ r key body scope, e.Hosts files fits numbers (.view q.logical) r key →
    r.ran ⟨key, key⟩ (e.merged q) (e.startScope q) = .ok (body, scope) →
    ∀ r key r' key', e.Hosts files fits numbers (e.originOf (e.ownChoice files q)) r key →
      e.Hosts files fits numbers (e.originOf (e.ownChoice files q)) r' key' →
      rel (r.ran ⟨key, key⟩ (e.layoutLocals q body) scope)
        (r'.ran ⟨key', key'⟩ (e.layoutLocals q body) scope)

/-- What a render can end with on registries that fit and hold what was planned. -/
def Outcome (fits : Registry → Prop) (numbers : Option Nat → Prop) (q : Query)
    (result : Except ViewError String) : Prop :=
  ∃ i j, numbers i ∧ numbers j ∧
    match e.plan files q.logical (e.ownChoice files q) i j with
    | .error err => result = .error err
    | .ok p => ∃ r r' key, p.view = ⟨key, key⟩ ∧
        e.Hosts files fits numbers (.view q.logical) r key ∧
        (∀ t, p.layout = some t → ∃ key, t = ⟨key, key⟩ ∧
          e.Hosts files fits numbers (e.originOf (e.ownChoice files q)) r' key) ∧
        result = e.finished q p r r'

variable {e files} {fits : Registry → Prop} {numbers : Option Nat → Prop} {q : Query}
  {result result' : Except ViewError String}

theorem finished_alike {p p' : Prepared} {r₁ r₂ r₁' r₂' : Registry}
    (hv : Alike (r₁.ran p.view (e.merged q) (e.startScope q))
      (r₁'.ran p'.view (e.merged q) (e.startScope q)))
    (hl : ∀ body scope t t', r₁.ran p.view (e.merged q) (e.startScope q) = .ok (body, scope) →
      p.layout = some t → p'.layout = some t' →
      Alike (r₂.ran t (e.layoutLocals q body) scope) (r₂'.ran t' (e.layoutLocals q body) scope))
    (hp : p.layout.isSome = p'.layout.isSome) :
    Alike (e.finished q p r₁ r₂) (e.finished q p' r₁' r₂') := by
  rcases (hv.map id).cases with ⟨⟨body, scope⟩, a', ha, ha', rfl⟩ | ⟨err, err', ha, ha', hvar⟩
  · rw [finished_of_ok ha, finished_of_ok ha']
    cases ht : p.layout <;> cases ht' : p'.layout <;>
      simp only [ht, ht', Option.isSome_none, Option.isSome_some, reduceCtorEq] at hp
    · rfl
    · exact (hl body scope _ _ ha ht ht').map Prod.fst
  · rw [finished_of_error ha, finished_of_error ha']
    exact .error hvar

theorem finished_congr {p : Prepared} {r₁ r₂ r₁' r₂' : Registry}
    (hv : r₁.ran p.view (e.merged q) (e.startScope q) =
      r₁'.ran p.view (e.merged q) (e.startScope q))
    (hl : ∀ body scope t, r₁.ran p.view (e.merged q) (e.startScope q) = .ok (body, scope) →
      p.layout = some t →
      r₂.ran t (e.layoutLocals q body) scope = r₂'.ran t (e.layoutLocals q body) scope) :
    e.finished q p r₁ r₂ = e.finished q p r₁' r₂' := by
  cases ha : r₁.ran p.view (e.merged q) (e.startScope q) with
  | error err => rw [finished_of_error ha, finished_of_error (hv ▸ ha)]
  | ok a =>
    rw [finished_of_ok ha, finished_of_ok (hv ▸ ha)]
    cases ht : p.layout with
    | none => rfl
    | some t => exact congrArg (Except.map Prod.fst) (hl _ _ _ ha ht)

/-- **All outcomes of a render are alike** if its templates determine them. -/
theorem Outcome.alike (hd : e.Determined files fits numbers Alike q)
    (h : e.Outcome files fits numbers q result) (h' : e.Outcome files fits numbers q result') :
    Alike result result' := by
  obtain ⟨i, j, -, -, h⟩ := h
  obtain ⟨i', j', -, -, h'⟩ := h'
  rcases (plan_alike e files q.logical (e.ownChoice files q) i j i' j').cases with
    ⟨p, p', hp, hp', hs⟩ | ⟨err, err', hp, hp', hv⟩
  · rw [hp] at h
    rw [hp'] at h'
    obtain ⟨r, x, key, hk, hr, hl, rfl⟩ := h
    obtain ⟨r', x', key', hk', hr', hl', rfl⟩ := h'
    refine finished_alike ?_ (fun body scope t t' hok ht ht' => ?_) hs
    · rw [hk, hk']
      exact hd.view r key r' key' hr hr'
    · obtain ⟨k, rfl, hx⟩ := hl t ht
      obtain ⟨k', rfl, hx'⟩ := hl' t' ht'
      exact hd.layout r key body scope hr (hk ▸ hok) x k x' k' hx hx'
  · rw [hp] at h
    rw [hp'] at h'
    rw [h, h']
    exact .error hv

/-- All outcomes of a render are equal if there are no numbers in the keys and its templates
determine them. -/
theorem Outcome.eq (hd : e.Determined files fits (· = none) Eq q)
    (h : e.Outcome files fits (· = none) q result)
    (h' : e.Outcome files fits (· = none) q result') : result = result' := by
  obtain ⟨i, j, rfl, rfl, h⟩ := h
  obtain ⟨i', j', rfl, rfl, h'⟩ := h'
  cases hp : e.plan files q.logical (e.ownChoice files q) none none with
  | error err =>
    rw [hp] at h h'
    rw [h, h']
  | ok p =>
    rw [hp] at h h'
    obtain ⟨r, x, key, hk, hr, hl, rfl⟩ := h
    obtain ⟨r', x', key', hk', hr', hl', rfl⟩ := h'
    rw [hk, Compiled.mk.injEq] at hk'
    obtain ⟨rfl, -⟩ := hk'
    refine finished_congr ?_ fun body scope t hok ht => ?_
    · rw [hk]
      exact hd.view r key r' key hr hr'
    · obtain ⟨k, rfl, hx⟩ := hl t ht
      obtain ⟨k', hk', hx'⟩ := hl' _ ht
      obtain ⟨rfl, -⟩ := (Compiled.mk.injEq ..).mp hk'
      exact hd.layout r key body scope hr (hk ▸ hok) x k x' k hx hx'

/-- The executions of a render depend on nothing but its own texts and the templates that a scan
leaves under some names. -/
def Confined (e : Engine) (base : Registry) (files : Files.FileTree) (names : String → Prop)
    (q : Query) : Prop :=
  e.Determined files (fun r => base.Like r ∧ ∀ name, names name →
    r.templates.get? name = (e.scanned base files).get? name) (fun _ => True) Alike q

theorem Outcome.mono {numbers' : Option Nat → Prop} (h : e.Outcome files fits numbers q result)
    (hn : ∀ i, numbers i → numbers' i) : e.Outcome files fits numbers' q result := by
  have hosts {o : Origin} {r : Registry} {key : String}
      (hh : e.Hosts files fits numbers o r key) : e.Hosts files fits numbers' o r key := by
    obtain ⟨hfits, text, i, ht, hi, hk⟩ := hh
    exact ⟨hfits, text, i, ht, hn i hi, hk⟩
  obtain ⟨i, j, hi, hj, h⟩ := h
  refine ⟨i, j, hn i hi, hn j hj, ?_⟩
  cases hp : e.plan files q.logical (e.ownChoice files q) i j with
  | error err =>
    rw [hp] at h
    exact h
  | ok p =>
    rw [hp] at h
    obtain ⟨r, r', key, hk, hr, hl, h⟩ := h
    exact ⟨r, r', key, hk, hosts hr, fun t ht => (hl t ht).imp fun _ hk => ⟨hk.1, hosts hk.2⟩, h⟩

end Engine

namespace Setting

open Engine

variable {c : Setting} {q : Query} {result : Except ViewError String}

theorem hosts_of_held {fits : Registry → Prop} {r : Registry} {o : Origin} {t : Compiled}
    (hf : fits r) (h : c.engine.Held c.files r o t) :
    ∃ key, t = ⟨key, key⟩ ∧ c.engine.Hosts c.files fits c.engine.Numbered o r key := by
  obtain ⟨⟨i, hi, rfl⟩, text, ht, hh, -⟩ := h
  exact ⟨_, rfl, hf, text, i, ht, hi, rfl, hh⟩

/-- What a render ends with is one of its outcomes. -/
theorem Rendered.outcome {fits : Registry → Prop}
    (h : c.Rendered q (c.engine.ownChoice c.files q) result)
    (hf : ∀ i j p v, c.engine.plan c.files q.logical (c.engine.ownChoice c.files q) i j = .ok p →
      c.Steady v → c.Ready q.logical (c.engine.ownChoice c.files q) p v → fits v.registry) :
    c.engine.Outcome c.files fits c.engine.Numbered q result := by
  obtain ⟨i, j, hi, hj, h⟩ := h
  refine ⟨i, j, hi, hj, ?_⟩
  cases hp : c.engine.plan c.files q.logical (c.engine.ownChoice c.files q) i j with
  | error err =>
    rw [hp] at h
    exact h
  | ok p =>
    rw [hp] at h
    obtain ⟨v, u, hv, hpv, hu, hpu, rfl⟩ := h
    obtain ⟨key, hk, hh⟩ := hosts_of_held (hf i j p v hp hv hpv) hpv.view
    exact ⟨v.registry, u.registry, key, hk, hh,
      fun t ht => hosts_of_held (hf i j p u hp hu hpu) (hpu.layout t ht), rfl⟩

/-- Renders that end with what was planned are alike, if they are confined to governed names. -/
theorem Rendered.alike {result' : Except ViewError String}
    (hq : c.engine.Confined c.base c.files c.governed q)
    (h : c.Rendered q (c.engine.ownChoice c.files q) result)
    (h' : c.Rendered q (c.engine.ownChoice c.files q) result') : Alike result result' :=
  Outcome.alike hq
    (.mono (h.outcome fun _ _ _ _ _ hv hp => ⟨hv.like, hp.settled⟩) fun _ _ => trivial)
    (.mono (h'.outcome fun _ _ _ _ _ hv hp => ⟨hv.like, hp.settled⟩) fun _ _ => trivial)

end Setting

end Views
