import Views.Engine.Context
import Views.Proofs.Engine.Fresh

/-!
# The order of failures

A render goes through stages, and its outcome is that of the first stage that fails. `Engine.Ends`
has one constructor for each stage; it is stated with the files, and with the registry on which the
view and the layout are executed. The first render of an engine ends as the relation says, and in no
other way (`render_ends`).
-/

set_option autoImplicit false

namespace Views

/-- What a render hands back for its end: the body is set if it is an output. -/
def ViewContext.ended (c : ViewContext) :
    Except ViewError String → Except ViewError Unit × ViewContext
  | .ok output => (.ok (), { c with body := some output })
  | .error err => (.error err, c)

namespace Engine

variable (e : Engine) (files : Files.FileTree) (q : Query) (r : Registry)

/-- The text of an origin can be read, and compiles. -/
structure Usable (o : Origin) (text : String) : Prop where
  read : e.textOf files o = .ok text
  compiles : ∃ elements, Template.elementsOf text false = .ok elements

/-- The view is there, its text is usable, and so is the layout that it names; the registry holds
the text under a key, and this is what executing it gives. -/
structure Runs (i : Option Nat) (text : String) (outcome : Except ViewError String × Scope) :
    Prop where
  found : e.found files q.logical = true
  usable : e.Usable files (.view q.logical) text
  layout : ∀ name, chooseLayout (e.merged q) text = .named name →
    ∃ text, e.Usable files (.layout name) text
  holds : r.Holds (e.keyFor (.view q.logical) i) text
  outcome : r.execute ⟨e.keyFor (.view q.logical) i, e.keyFor (.view q.logical) i⟩
    (.object (e.merged q)) (e.startScope q) = outcome

/-- What a render ends with, stage by stage; `i` and `j` are the numbers in the keys of the view and
of the layout. -/
inductive Ends (i j : Option Nat) : Except ViewError String → Prop
  /-- The file of a relative name is not there. -/
  | missing (ha : Files.isAbsolute q.logical = false)
      (hf : files.isFile (e.resolver.templatePath q.logical) = false) :
      Ends i j (.error (.missingTemplate (e.resolver.templatePath q.logical)))
  /-- The view cannot be read. -/
  | viewUnread {fault : Files.SystemFault} (hf : e.found files q.logical = true)
      (hr : files.read (e.resolver.templatePath q.logical) = .error fault) :
      Ends i j (.error (.io (e.resolver.templatePath q.logical) (.system fault)))
  /-- The text of the view does not compile. -/
  | viewBroken {text : String} {err : Template.CompileError} (hf : e.found files q.logical = true)
      (hr : files.read (e.resolver.templatePath q.logical) = .ok text)
      (hc : Template.elementsOf text false = .error err) :
      Ends i j (.error (.compile (e.keyFor (.view q.logical) i)
        (err.message (e.keyFor (.view q.logical) i))))
  /-- The layout that the variables or the view name cannot be read. -/
  | layoutUnread {text name : String} {fault : Files.SystemFault}
      (hf : e.found files q.logical = true) (hv : e.Usable files (.view q.logical) text)
      (hn : chooseLayout (e.merged q) text = .named name)
      (hr : files.read (e.resolver.layoutPath name) = .error fault) :
      Ends i j (.error (.io (e.resolver.layoutPath name) (.system fault)))
  /-- Its text does not compile. -/
  | layoutBroken {text name layout : String} {err : Template.CompileError}
      (hf : e.found files q.logical = true) (hv : e.Usable files (.view q.logical) text)
      (hn : chooseLayout (e.merged q) text = .named name)
      (hr : files.read (e.resolver.layoutPath name) = .ok layout)
      (hc : Template.elementsOf layout false = .error err) :
      Ends i j (.error (.compile (e.keyFor (.layout name) j)
        (err.message (e.keyFor (.layout name) j))))
  /-- Executing the view fails. -/
  | viewFails {text message : String} {scope : Scope}
      (hx : e.Runs files q r i text
        (.error (.execute (e.keyFor (.view q.logical) i) message), scope)) :
      Ends i j (.error (.execute (e.keyFor (.view q.logical) i) message))
  /-- The default layout is needed, and could not be read or compiled. -/
  | layoutUnavailable {text body : String} {scope : Scope}
      (hx : e.Runs files q r i text (.ok body, scope))
      (hd : chooseLayout (e.merged q) text = .byDefault)
      (hl : ∀ layout, ¬ e.Usable files (e.originOf .byDefault) layout) :
      Ends i j (.error (.layoutUnavailable q.logical))
  /-- Executing the layout fails. -/
  | layoutFails {text body layout message : String} {scope : Scope} {o : Origin}
      (hx : e.Runs files q r i text (.ok body, scope))
      (ho : e.originOf (chooseLayout (e.merged q) text) = o) (hl : e.Usable files o layout)
      (hh : r.Holds (e.keyFor o j) layout)
      (hy : (r.execute ⟨e.keyFor o j, e.keyFor o j⟩ (.object (e.layoutLocals q body)) scope).1 =
        .error (.execute (e.keyFor o j) message)) :
      Ends i j (.error (.execute (e.keyFor o j) message))
  /-- Nothing fails. -/
  | rendered {text body layout out : String} {scope : Scope} {o : Origin}
      (hx : e.Runs files q r i text (.ok body, scope))
      (ho : e.originOf (chooseLayout (e.merged q) text) = o) (hl : e.Usable files o layout)
      (hh : r.Holds (e.keyFor o j) layout)
      (hy : (r.execute ⟨e.keyFor o j, e.keyFor o j⟩ (.object (e.layoutLocals q body)) scope).1 =
        .ok out) : Ends i j (.ok out)

variable {e files q r} {o : Origin} {i j : Option Nat} {text : String}

/-! ## Loading -/

theorem load_of_usable (h : e.Usable files o text) (i : Option Nat) :
    e.load files o i = .ok ⟨e.keyFor o i, e.keyFor o i⟩ := by
  obtain ⟨hr, elements, hc⟩ := h
  rw [load, hr]
  show compiled _ text = _
  rw [compiled, hc]

theorem textOf_of_fileOf {kind : FileKind} {path : String} (ho : e.fileOf o = some (kind, path)) :
    e.textOf files o = readText files path := by
  rw [textOf, ho]

theorem load_of_unread {kind : FileKind} {path : String} {fault : Files.SystemFault}
    (ho : e.fileOf o = some (kind, path)) (h : files.read path = .error fault) (i : Option Nat) :
    e.load files o i = .error (.io path (.system fault)) := by
  rw [load, textOf_of_fileOf ho, readText, h]
  rfl

theorem load_of_broken {kind : FileKind} {path : String} {err : Template.CompileError}
    (ho : e.fileOf o = some (kind, path)) (h : files.read path = .ok text)
    (hc : Template.elementsOf text false = .error err) (i : Option Nat) :
    e.load files o i = .error (.compile (e.keyFor o i) (err.message (e.keyFor o i))) := by
  rw [load, textOf_of_fileOf ho, readText, h]
  show compiled _ text = _
  rw [compiled, hc]

theorem usable_identity : e.Usable files .identity identitySource := by
  have hc : (Template.elementsOf identitySource false).isOk = true := by cbv
  refine ⟨rfl, ?_⟩
  cases h : Template.elementsOf identitySource false with
  | ok elements => exact ⟨elements, rfl⟩
  | error err => rw [h] at hc; cases hc

theorem usable_or_unread_or_broken (e : Engine) (files : Files.FileTree) (o : Origin) :
    (∃ text, e.Usable files o text) ∨ ∃ kind path, e.fileOf o = some (kind, path) ∧
      ((∃ fault, files.read path = .error fault) ∨
        ∃ text err, files.read path = .ok text ∧ Template.elementsOf text false = .error err) := by
  cases ho : e.fileOf o with
  | none =>
    cases o with
    | identity => exact .inl ⟨_, usable_identity⟩
    | _ => cases ho
  | some file =>
    obtain ⟨kind, path⟩ := file
    cases hr : files.read path with
    | error fault => exact .inr ⟨kind, path, rfl, .inl ⟨fault, hr⟩⟩
    | ok text =>
      cases hc : Template.elementsOf text false with
      | error err => exact .inr ⟨kind, path, rfl, .inr ⟨text, err, hr, hc⟩⟩
      | ok elements =>
        refine .inl ⟨text, ?_, elements, hc⟩
        rw [textOf_of_fileOf ho, readText, hr]
        rfl

/-! ## Planning -/

theorem ownChoice_of_usable (hv : e.Usable files (.view q.logical) text) :
    e.ownChoice files q = chooseLayout (e.merged q) text := by
  rw [ownChoice, hv.read]

theorem plan_of_usable (hf : e.found files q.logical = true)
    (hv : e.Usable files (.view q.logical) text) (i j : Option Nat) :
    e.plan files q.logical (e.ownChoice files q) i j =
      (e.planLayout files (chooseLayout (e.merged q) text) j).map fun layout =>
        ⟨⟨e.keyFor (.view q.logical) i, e.keyFor (.view q.logical) i⟩, layout⟩ := by
  rw [plan, if_pos hf, load_of_usable hv, ownChoice_of_usable hv]
  cases e.planLayout files (chooseLayout (e.merged q) text) j <;> rfl

theorem plan_of_load_error {err : ViewError} {choice : LayoutChoice}
    (hf : e.found files q.logical = true) (h : e.load files (.view q.logical) i = .error err) :
    e.plan files q.logical choice i j = .error err := by
  rw [plan, if_pos hf, h]
  rfl

theorem planLayout_of_usable {choice : LayoutChoice} (h : e.Usable files (e.originOf choice) text)
    (j : Option Nat) : e.planLayout files choice j =
      .ok (some ⟨e.keyFor (e.originOf choice) j, e.keyFor (e.originOf choice) j⟩) := by
  cases choice with
  | byDefault => rw [planLayout, load_of_usable h]; rfl
  | identity => rw [planLayout_of_ne (by simp), load_of_usable h]; rfl
  | named name => rw [planLayout_of_ne (by simp), load_of_usable h]; rfl

theorem planLayout_of_unusable (h : ∀ text, ¬ e.Usable files (e.originOf .byDefault) text)
    (j : Option Nat) : e.planLayout files .byDefault j = .ok none := by
  obtain ⟨text, ht⟩ | ⟨kind, path, ho, ⟨fault, hr⟩ | ⟨text, err, hr, hc⟩⟩ :=
    usable_or_unread_or_broken e files (e.originOf .byDefault)
  · exact absurd ht (h text)
  · rw [planLayout, load_of_unread ho hr]; rfl
  · rw [planLayout, load_of_broken ho hr hc]; rfl

theorem planLayout_of_error {name : String} {err : ViewError}
    (h : e.load files (.layout name) j = .error err) :
    e.planLayout files (.named name) j = .error err := by
  rw [planLayout_of_ne (by simp), originOf, h]
  rfl

/-! ## Executing -/

theorem ran_of_execute {t : Compiled} {locals : Fields} {scope scope' : Scope}
    {result : Except ViewError String} (h : r.execute t (.object locals) scope = (result, scope')) :
    r.ran t locals scope = result.map fun out => (out, scope') := by
  rw [Registry.ran, h]

theorem execute_error {t : Compiled} {v : Value} {scope : Scope} {err : ViewError}
    (h : (r.execute t v scope).1 = .error err) : ∃ message, err = .execute t.name message := by
  unfold Registry.execute at h
  cases hr : r.render t.key v scope with
  | mk result scope' =>
    rw [hr] at h
    cases result with
    | error err' => exact ⟨err'.message, (Except.error.inj h).symm⟩
    | ok out => cases h

theorem exists_planLayout {choice : LayoutChoice}
    (h : ∀ name, choice = .named name → ∃ text, e.Usable files (.layout name) text)
    (j : Option Nat) : ∃ layout, e.planLayout files choice j = .ok layout := by
  cases choice with
  -- A default layout that cannot be loaded is planned as none.
  | byDefault => exact ⟨_, rfl⟩
  | identity => exact ⟨_, planLayout_of_usable usable_identity j⟩
  | named name =>
    obtain ⟨text, ht⟩ := h name rfl
    exact ⟨_, planLayout_of_usable ht j⟩

theorem Runs.concluded_eq {scope : Scope} {result : Except ViewError String}
    (h : e.Runs files q r i text (result, scope)) {layout : Option Compiled}
    (hl : e.planLayout files (chooseLayout (e.merged q) text) j = .ok layout) :
    e.concluded files q r i j = e.finished q
      ⟨⟨e.keyFor (.view q.logical) i, e.keyFor (.view q.logical) i⟩, layout⟩ r r := by
  refine concluded_of_ok ?_
  rw [plan_of_usable h.found h.usable, hl]
  rfl

theorem Runs.concluded_of_error {scope : Scope} {err : ViewError}
    (h : e.Runs files q r i text (.error err, scope)) : e.concluded files q r i j = .error err := by
  obtain ⟨layout, hl⟩ := exists_planLayout h.layout j
  rw [h.concluded_eq hl]
  exact finished_of_error (ran_of_execute h.outcome)

theorem Runs.concluded_of_none {scope : Scope} {body : String}
    (h : e.Runs files q r i text (.ok body, scope))
    (hl : e.planLayout files (chooseLayout (e.merged q) text) j = .ok none) :
    e.concluded files q r i j = .error (.layoutUnavailable q.logical) := by
  rw [h.concluded_eq hl, finished_of_ok (ran_of_execute h.outcome)]

theorem Runs.concluded_of_some {scope : Scope} {body : String} {t : Compiled}
    (h : e.Runs files q r i text (.ok body, scope))
    (hl : e.planLayout files (chooseLayout (e.merged q) text) j = .ok (some t)) :
    e.concluded files q r i j = (r.execute t (.object (e.layoutLocals q body)) scope).1 := by
  rw [h.concluded_eq hl, finished_of_ok (ran_of_execute h.outcome)]
  simp only [Registry.ran]
  cases (r.execute t (.object (e.layoutLocals q body)) scope).1 <;> rfl

/-! ## The order of failures -/

/-- A render ends in one way only. -/
theorem Ends.eq_concluded {result : Except ViewError String} (h : e.Ends files q r i j result) :
    result = e.concluded files q r i j := by
  cases h with
  | missing ha hf =>
    refine (concluded_of_error ?_).symm
    rw [plan, found, ha, hf]
    rfl
  | viewUnread hf hr =>
    exact (concluded_of_error (plan_of_load_error hf (load_of_unread rfl hr i))).symm
  | viewBroken hf hr hc =>
    exact (concluded_of_error (plan_of_load_error hf (load_of_broken rfl hr hc i))).symm
  | layoutUnread hf hv hn hr =>
    refine (concluded_of_error ?_).symm
    rw [plan_of_usable hf hv, hn, planLayout_of_error (load_of_unread rfl hr j)]
    rfl
  | layoutBroken hf hv hn hr hc =>
    refine (concluded_of_error ?_).symm
    rw [plan_of_usable hf hv, hn, planLayout_of_error (load_of_broken rfl hr hc j)]
    rfl
  | viewFails hx => exact hx.concluded_of_error.symm
  | layoutUnavailable hx hd hl =>
    exact (hx.concluded_of_none (by rw [hd]; exact planLayout_of_unusable hl j)).symm
  | layoutFails hx ho hl hh hy =>
    subst ho
    rw [hx.concluded_of_some (planLayout_of_usable hl j), hy]
  | rendered hx ho hl hh hy =>
    subst ho
    rw [hx.concluded_of_some (planLayout_of_usable hl j), hy]

theorem runs_of_usable (hf : e.found files q.logical = true)
    (hv : e.Usable files (.view q.logical) text)
    (hl : ∀ name, chooseLayout (e.merged q) text = .named name →
      ∃ text, e.Usable files (.layout name) text)
    (h : e.Stocked files q r i j) :
    e.Runs files q r i text (r.execute ⟨e.keyFor (.view q.logical) i, e.keyFor (.view q.logical) i⟩
      (.object (e.merged q)) (e.startScope q)) := by
  obtain ⟨layout, hl'⟩ := exists_planLayout hl j
  refine ⟨hf, hv, hl, ?_, rfl⟩
  have hplan : e.plan files q.logical (e.ownChoice files q) i j =
      .ok ⟨⟨e.keyFor (.view q.logical) i, e.keyFor (.view q.logical) i⟩, layout⟩ := by
    rw [plan_of_usable hf hv, hl']
    rfl
  obtain ⟨-, text', ht', hh, -⟩ := (h _ hplan).1
  obtain rfl := Except.ok.inj (hv.read.symm.trans ht')
  exact hh

/-- After a body that has been rendered a render ends with the default layout missing, or with what
executing the layout gives. -/
theorem ends_of_body {body : String} {scope : Scope}
    (hx : e.Runs files q r i text (.ok body, scope))
    (hheld : ∀ t, e.planLayout files (chooseLayout (e.merged q) text) j = .ok (some t) →
      e.Held files r (e.originOf (chooseLayout (e.merged q) text)) t) :
    e.Ends files q r i j (e.concluded files q r i j) := by
  by_cases hl : ∃ layout, e.Usable files (e.originOf (chooseLayout (e.merged q) text)) layout
  · obtain ⟨layout, hl⟩ := hl
    have hplan := planLayout_of_usable hl j
    obtain ⟨-, layout', hread, hh, -⟩ := hheld _ hplan
    obtain rfl := Except.ok.inj (hl.read.symm.trans hread)
    rw [hx.concluded_of_some hplan]
    cases hy : (r.execute _ (.object (e.layoutLocals q body)) scope).1 with
    | error err =>
      obtain ⟨message, rfl⟩ := execute_error hy
      exact .layoutFails hx rfl hl hh hy
    | ok out => exact .rendered hx rfl hl hh hy
  · have hnone := not_exists.1 hl
    -- Only the default layout can fail so late: one that is named is usable by now.
    cases hd : chooseLayout (e.merged q) text with
    | byDefault =>
      rw [hd] at hnone
      rw [hx.concluded_of_none (by rw [hd]; exact planLayout_of_unusable hnone j)]
      exact .layoutUnavailable hx hd hnone
    | identity =>
      rw [hd] at hnone
      exact absurd usable_identity (hnone _)
    | named name =>
      obtain ⟨layout, hlayout⟩ := hx.layout name hd
      rw [hd] at hnone
      exact absurd hlayout (hnone layout)

theorem ends_of_usable (hf : e.found files q.logical = true)
    (hv : e.Usable files (.view q.logical) text)
    (hl : ∀ name, chooseLayout (e.merged q) text = .named name →
      ∃ layout, e.Usable files (.layout name) layout) (h : e.Stocked files q r i j) :
    e.Ends files q r i j (e.concluded files q r i j) := by
  have hruns := runs_of_usable hf hv hl h
  cases hx : r.execute ⟨e.keyFor (.view q.logical) i, e.keyFor (.view q.logical) i⟩
      (.object (e.merged q)) (e.startScope q) with
  | mk result scope =>
    rw [hx] at hruns
    cases result with
    | error err =>
      obtain ⟨message, rfl⟩ := execute_error (congrArg Prod.fst hx)
      rw [hruns.concluded_of_error]
      exact .viewFails hruns
    | ok body =>
      refine ends_of_body hruns fun t ht => ?_
      have hplan : e.plan files q.logical (e.ownChoice files q) i j =
          .ok ⟨⟨e.keyFor (.view q.logical) i, e.keyFor (.view q.logical) i⟩, some t⟩ := by
        rw [plan_of_usable hf hv, ht]
        rfl
      rw [← ownChoice_of_usable hv]
      exact (h _ hplan).2 t rfl

theorem ends_of_missing (hf : ¬ e.found files q.logical = true) :
    e.Ends files q r i j (e.concluded files q r i j) := by
  obtain ⟨ha, hfile⟩ : Files.isAbsolute q.logical = false ∧
      files.isFile (e.resolver.templatePath q.logical) = false := by
    simpa [found] using hf
  have hplan : e.plan files q.logical (e.ownChoice files q) i j =
      .error (.missingTemplate (e.resolver.templatePath q.logical)) := by
    rw [plan, if_neg hf]
    rfl
  rw [concluded_of_error hplan]
  exact .missing ha hfile

theorem ends_of_unusable_view (hf : e.found files q.logical = true)
    (h : ∀ text, ¬ e.Usable files (.view q.logical) text) :
    e.Ends files q r i j (e.concluded files q r i j) := by
  obtain ⟨text, hv⟩ | ⟨kind, path, ho, ⟨fault, hr⟩ | ⟨text, err, hr, hc⟩⟩ :=
    usable_or_unread_or_broken e files (.view q.logical)
  · exact absurd hv (h text)
  · cases ho
    rw [concluded_of_error (plan_of_load_error hf (load_of_unread rfl hr i))]
    exact .viewUnread hf hr
  · cases ho
    rw [concluded_of_error (plan_of_load_error hf (load_of_broken rfl hr hc i))]
    exact .viewBroken hf hr hc

theorem ends_of_unusable_layout {name : String} (hf : e.found files q.logical = true)
    (hv : e.Usable files (.view q.logical) text) (hn : chooseLayout (e.merged q) text = .named name)
    (h : ∀ layout, ¬ e.Usable files (.layout name) layout) :
    e.Ends files q r i j (e.concluded files q r i j) := by
  have hconcluded {err : ViewError} (he : e.load files (.layout name) j = .error err) :
      e.concluded files q r i j = .error err := by
    refine concluded_of_error ?_
    rw [plan_of_usable hf hv, hn, planLayout_of_error he]
    rfl
  obtain ⟨layout, hl⟩ | ⟨kind, path, ho, ⟨fault, hr⟩ | ⟨layout, err, hr, hc⟩⟩ :=
    usable_or_unread_or_broken e files (.layout name)
  · exact absurd hl (h layout)
  · cases ho
    rw [hconcluded (load_of_unread rfl hr j)]
    exact .layoutUnread hf hv hn hr
  · cases ho
    rw [hconcluded (load_of_broken rfl hr hc j)]
    exact .layoutBroken hf hv hn hr hc

/-- A render ends in one of the ways. -/
theorem ends_concluded (h : e.Stocked files q r i j) :
    e.Ends files q r i j (e.concluded files q r i j) := by
  by_cases hf : e.found files q.logical = true
  case neg => exact ends_of_missing hf
  by_cases hv : ∃ text, e.Usable files (.view q.logical) text
  case neg => exact ends_of_unusable_view hf (not_exists.1 hv)
  obtain ⟨text, hv⟩ := hv
  by_cases hl : ∀ name, chooseLayout (e.merged q) text = .named name →
      ∃ layout, e.Usable files (.layout name) layout
  case neg =>
    push Not at hl
    obtain ⟨name, hn, hl⟩ := hl
    exact ends_of_unusable_layout hf hv hn hl
  exact ends_of_usable hf hv hl h

theorem ends_iff (h : e.Stocked files q r i j) (result : Except ViewError String) :
    e.Ends files q r i j result ↔ result = e.concluded files q r i j :=
  ⟨Ends.eq_concluded, fun he => he ▸ ends_concluded h⟩

/-- No stage is about the options or about a context without an engine. -/
theorem Ends.ne {result : Except ViewError String} (h : e.Ends files q r i j result) :
    (∀ message option, result ≠ .error (.badOptions message option)) ∧
      result ≠ .error .notAttached := by
  cases h <;> exact ⟨fun _ _ => by simp, by simp⟩

theorem render_eq (c : ViewContext) (name : String) (locals : Fields) :
    e.render c name locals =
      Program.bind (e.answer ⟨c.state, c.request, name, locals⟩) fun result =>
        .done (c.ended result) := by
  unfold render
  show Program.bind _ _ = _
  congr
  funext result
  cases result <;> rfl

theorem render_run (c : ViewContext) (name : String) (locals : Fields) (w : World) :
    let run := Program.run (e.answer ⟨c.state, c.request, name, locals⟩) w
    (e.render c name locals).run w = ⟨c.ended run.result, run.world, run.steps⟩ := by
  rw [render_eq, Program.run_bind]
  simp only [Program.run_done, List.append_nil]

/-- **The first render of an engine** ends as its first failing stage says, in no other way, and
sets the body of the context if no stage fails. -/
theorem render_ends {config : Config} {r base : Registry} {e : Engine}
    (hb : build config r = .ok (e, base)) (files : Files.FileTree) (c : ViewContext)
    (name : String) (locals : Fields) :
    let q : Query := ⟨c.state, c.request, name, locals⟩
    let run := (e.render c name locals).run (e.world base files)
    base.Like run.world.registry ∧ ∃ i j result, e.Numbered i ∧ e.Numbered j ∧
      (∀ result', e.Ends files q run.world.registry i j result' ↔ result' = result) ∧
      run.result = c.ended result ∧
      (∀ message option, run.result.1 ≠ .error (.badOptions message option)) ∧
      run.result.1 ≠ .error .notAttached := by
  intro q run
  have hrun : run = _ := render_run c name locals (e.world base files)
  obtain ⟨hlike, i, j, hi, hj, hresult, hstocked⟩ := fresh_run hb files q
  rw [hrun]
  have hends := ends_iff hstocked
  rw [← hresult] at hends
  obtain ⟨hbad, hdetached⟩ := ((hends _).2 rfl).ne
  refine ⟨hlike, i, j, _, hi, hj, hends, rfl, ?_⟩
  cases hq : ((e.answer q).run (e.world base files)).result with
  | ok out => exact ⟨fun _ _ => by simp [ViewContext.ended], by simp [ViewContext.ended]⟩
  | error err =>
    rw [hq] at hbad hdetached
    exact ⟨fun message option h => hbad message option (congrArg Except.error (Except.error.inj h)),
      fun h => hdetached (congrArg Except.error (Except.error.inj h))⟩

/-- A view that names a layout which is not there, and that could not be executed either: the render
ends with the error of the layout. -/
theorem render_ends_by_layout :
    let config : Config := { viewPath := "views", templateOptions := { strictMode := true } }
    let e : Engine := ⟨config⟩
    let base := (freshRegistry config.templateOptions).withBlockHelpers "block" "contentFor"
    let files : Files.FileTree :=
      ⟨.directory [("views", .directory [("a.hbs", .file "{{!< l}}{{x}}")])], []⟩
    let q : Query := { name := "a" }
    let run := (e.render {} "a" []).run (e.world base files)
    build config (freshRegistry config.templateOptions) = .ok (e, base) ∧
      run.result.1 = .error (.io "views/l.hbs" (.system .notFound)) ∧
      ∃ i j result, (∀ result', e.Ends files q run.world.registry i j result' ↔ result' = result) ∧
        run.result = ViewContext.ended {} result := by
  intro config e base files q
  have hb : build config (freshRegistry config.templateOptions) = .ok (e, base) := rfl
  obtain ⟨-, i, j, result, -, -, hends, hresult, -⟩ := render_ends hb files {} "a" []
  refine ⟨hb, ?_, i, j, result, hends, hresult⟩
  cbv

end Engine

end Views
