import Views.Proofs.Engine.Tasks

/-!
# What a render does to its own templates

Without caching the key of a template is that of its file, so that nothing but the order of the
requests keeps a render from replacing a template before it executes it. It compiles under no key
twice, and once it has compiled something it registers only partials that its texts refer to
(`Engine.Single`), whose names are no keys. So what replaces a template that a render has compiled
is done by another task (`replaced_by_other`).
-/

set_option autoImplicit false

namespace Views

/-- Templates were compiled under some keys only. -/
def Compiles (keys : String → Prop) (past : List Step) : Prop :=
  ∀ key text answer, (⟨.compile key text, answer⟩ : Step) ∈ past → keys key

namespace Compiles

variable {keys keys' : String → Prop} {past : List Step}

theorem mono (h : Compiles keys past) (hk : ∀ key, keys key → keys' key) : Compiles keys' past :=
  fun key text answer hm => hk key (h key text answer hm)

theorem snoc (h : Compiles keys past) {r : Request} (hr : ∀ key text, r ≠ .compile key text)
    (answer : r.Answer) : Compiles keys (past ++ [⟨r, answer⟩]) := by
  intro key text answer' hm
  rcases List.mem_append.1 hm with hm | hm
  · exact h key text answer' hm
  · exact absurd (congrArg Sigma.fst (List.mem_singleton.1 hm)).symm (hr key text)

theorem snoc_compile (h : Compiles keys past) (key text : String)
    (answer : Except ViewError Compiled) :
    Compiles (fun k => k = key ∨ keys k) (past ++ [⟨.compile key text, answer⟩]) := by
  intro k text' answer' hm
  rcases List.mem_append.1 hm with hm | hm
  · exact .inr (h k text' answer' hm)
  · exact .inl (Request.compile.inj (congrArg Sigma.fst (List.mem_singleton.1 hm))).1

end Compiles

namespace Engine

/-- A request that changes no template. -/
def Plain : Request → Prop
  | .compile _ _ => False
  | .registerPartial _ _ => False
  | _ => True

/-- Nothing is compiled twice under one key, and once something has been compiled, only partials are
registered that markers refer to. -/
def Single (e : Engine) (past : List Step) : Request → Prop
  | .compile key _ => Compiles (· ≠ key) past
  | .registerPartial name _ => Compiles (fun _ => False) past ∨
      ∃ word, Marked word ∧ name = word ++ ending e.config.extname
  | _ => True

/-- The program keeps to the rule, whatever it is answered, and ends with `Q`. -/
def Singly (e : Engine) {α : Type} (Q : α → List Step → Prop) (p : Program α) (past : List Step) :
    Prop :=
  p.Keeps (fun _ _ => True) e.Single Q past

variable {e : Engine} {keys : String → Prop} {past : List Step}

theorem free_plain {r : Request} (h : Plain r) : Program.Free e.Single (Compiles keys) r := by
  cases r with
  | compile key text => exact h.elim
  | registerPartial name source => exact h.elim
  | _ => exact fun past hp => ⟨trivial, hp.snoc fun _ _ => by simp⟩

theorem free_register {name source : String}
    (h : (∀ key, ¬ keys key) ∨ ∃ word, Marked word ∧ name = word ++ ending e.config.extname) :
    Program.Free e.Single (Compiles keys) (.registerPartial name source) :=
  fun _ hp => ⟨h.imp_left fun hk => hp.mono fun key => hk key, hp.snoc fun _ _ => by simp⟩

theorem resolve_single (name : String) (h : Compiles keys past) :
    e.Singly (fun _ past' => Compiles keys past') (e.resolver.resolve name) past := by
  unfold Resolver.resolve
  split
  · exact h
  · refine Program.Free.keeps (free_plain trivial) h fun known past₁ h₁ => ?_
    cases known with
    | some path => exact h₁
    | none =>
      refine Program.Free.keeps (free_plain trivial) h₁ fun there past₂ h₂ => ?_
      show e.Singly _ (if there = true then _ else _) past₂
      split
      · split
        · exact Program.Free.keeps (free_plain trivial) h₂ fun _ _ h₃ => h₃
        · exact h₂
      · exact h₂

theorem ensureScanned_single (hk : ∀ key, ¬ keys key) (h : Compiles keys past) :
    e.Singly (fun _ past' => Compiles keys past') e.partials.ensureScanned past :=
  e.partials.ensureScanned_keeps (fun _ => free_plain trivial)
    (fun _ _ => free_register (.inl hk)) (fun _ _ => free_plain trivial)
    (free_plain trivial) (free_plain trivial) h

theorem registerReferenced_single (text : String) (h : Compiles keys past) :
    e.Singly (fun _ past' => Compiles keys past') (e.registerReferenced text) past := by
  unfold registerReferenced
  split
  · exact h
  · split
    · split
      · exact h
      · refine Program.Keeps.bind (p := e.partials.registerNamed _) (e.partials.registerNamed_keeps
          (fun _ => free_plain trivial) (fun name hn _ => free_register ?_) h)
        have hm : Marked name := marked_of_mem_partialNames hn
        exact .inr ⟨name, hm, partialName_marked e.partials hm⟩
    · exact h

theorem compile_single {key : String} (text : String) (h : Compiles keys past) (hk : ¬ keys key) :
    e.Singly (fun _ past' => Compiles (fun k => k = key ∨ keys k) past')
      (Program.request (.compile key text)) past :=
  ⟨h.mono fun _ hkey he => hk (he ▸ hkey), fun answer _ => h.snoc_compile key text answer⟩

theorem loadFile_single (hoff : e.config.caching = false) {kind : FileKind} {path : String}
    (h : Compiles keys past) (hk : ¬ keys (keyOf kind path none)) :
    e.Singly (fun _ past' => Compiles (fun k => k = keyOf kind path none ∨ keys k) past')
      (e.loadFile kind path) past := by
  have hkey : e.compileKey kind path = .done (keyOf kind path none) := by
    rw [compileKey, hoff]
    rfl
  rw [loadFile_eq, Program.request_bind]
  refine Program.Free.keeps (free_plain trivial) h fun text past₁ h₁ => ?_
  cases text with
  | error err => exact h₁.mono fun _ => .inr
  | ok text =>
    rw [Attempt.after_ok, loadText_eq, hkey]
    refine .andThen (registerReferenced_single text h₁) fun _ past₂ h₂ _ => ?_
    exact .attemptThen (compile_single text h₂ hk) (fun _ _ h₃ _ => h₃) fun _ _ h₃ => h₃

/-! ## Renders -/

/-- A key that a view can have. -/
def ViewKey (key : String) : Prop := FileKind.opening .view <+: key.toList

theorem viewKey_keyOf (path : String) (i : Option Nat) : ViewKey (keyOf .view path i) := by
  rw [ViewKey, toList_keyOf]
  exact List.prefix_append _ _

theorem not_viewKey_keyOf (path : String) (i : Option Nat) : ¬ ViewKey (keyOf .layout path i) := by
  intro h
  have hl : FileKind.opening .layout <+: (keyOf .layout path i).toList := by
    rw [toList_keyOf]
    exact List.prefix_append _ _
  exact absurd (opening_inj h hl) (by decide)

theorem loadLayout_single (hoff : e.config.caching = false) (name : String)
    (h : Compiles ViewKey past) : e.Singly (fun _ _ => True) (e.loadLayout name) past := by
  rw [loadLayout_eq]
  exact .attemptThen (loadFile_single hoff h (not_viewKey_keyOf _ _)) (fun _ _ _ _ => trivial)
    fun _ _ _ => trivial

theorem identityLayout_single (h : Compiles ViewKey past) :
    e.Singly (fun _ _ => True) identityLayout past :=
  (compile_single identitySource h (by unfold ViewKey; decide)).mono fun _ _ _ => trivial

/-- If no layout is compiled, nothing but views have been. -/
theorem layoutFor_single (hoff : e.config.caching = false) (choice : LayoutChoice)
    (h : Compiles ViewKey past) : e.Singly (fun r past' => r = .ok none → Compiles ViewKey past')
      (e.layoutFor choice) past := by
  cases choice with
  | byDefault => exact fun _ => h
  | identity =>
    rw [layoutFor, Attempt.map_eq]
    refine .andThen (identityLayout_single h) fun r _ _ _ hr => ?_
    cases r <;> cases hr
  | named name =>
    rw [layoutFor, Attempt.map_eq]
    refine .andThen (loadLayout_single hoff name h) fun r _ _ _ hr => ?_
    cases r <;> cases hr

theorem defaultLayout_single (hoff : e.config.caching = false) (h : Compiles ViewKey past) :
    e.Singly (fun _ _ => True) e.defaultLayout past := by
  unfold defaultLayout
  refine Program.Free.keeps (free_plain trivial) h fun known past₁ h₁ => ?_
  cases known with
  | some t => trivial
  | none =>
    rw [Program.bind]
    refine .andThen (Q := fun _ _ => True) ?_ fun r past₂ _ _ => ?_
    · cases e.config.defaultLayoutName? with
      | some name => exact loadLayout_single hoff name h₁
      | none => exact identityLayout_single h₁
    · cases r with
      | error err => trivial
      | ok t => exact ⟨trivial, fun _ _ => trivial⟩

theorem entryFor_single (hoff : e.config.caching = false) (name path : String) (locals : Fields)
    (h : Compiles (fun _ => False) past) :
    e.Singly (fun r past' => ∀ entry, r = .ok entry → entry.layout = none → Compiles ViewKey past')
      (e.entryFor name path locals) past := by
  rw [entryFor_eq]
  refine Program.Free.keeps (free_plain trivial) h fun known past₁ h₁ => ?_
  cases known with
  | some entry => exact fun _ _ _ => h₁.mono fun _ hk => hk.elim
  | none =>
    refine .attemptThen (loadFile_single hoff h₁ not_false) (fun a past₂ h₂ _ => ?_)
      fun err _ _ _ he => by cases he
    have h₂ : Compiles ViewKey past₂ :=
      h₂.mono fun key hk => hk.resolve_right not_false ▸ viewKey_keyOf path none
    refine .attemptThen (layoutFor_single hoff _ h₂) (fun layout past₃ h₃ _ => ?_)
      fun err _ _ _ he => by cases he
    refine ⟨trivial, fun answer _ => ?_⟩
    rintro entry ⟨⟩ hl
    exact (h₃ (congrArg Except.ok hl)).snoc (fun _ _ => by simp) answer

theorem execute_single (t : Compiled) (locals : Fields) (scope : Scope) :
    e.Singly (fun _ _ => True) (execute t locals scope) past := by
  rw [execute_eq]
  exact ⟨trivial, fun _ _ => trivial⟩

/-- **A render keeps to the rule.** -/
theorem answer_single (hoff : e.config.caching = false) (q : Query) :
    e.Singly (fun _ _ => True) (e.answer q) [] := by
  have hnone : Compiles (fun _ => False) [] := fun _ _ _ hm => by cases hm
  rw [answer_bind]
  refine .attemptThen (Q := fun _ _ => True) ?_ (fun p past _ _ => ?_) fun _ _ _ => trivial
  · rw [prepare_eq]
    refine .andThen (resolve_single _ hnone) fun path past₁ h₁ _ => ?_
    cases path with
    | none => trivial
    | some path =>
      -- The scan may register any name: nothing has been compiled yet.
      refine .andThen (ensureScanned_single (fun _ => id) h₁) fun _ past₂ h₂ _ => ?_
      refine .attemptThen (entryFor_single hoff _ path _ h₂) (fun entry past₃ h₃ _ => ?_)
        fun _ _ _ => trivial
      cases hl : entry.layout with
      | some layout => trivial
      | none =>
        exact .andThen (defaultLayout_single hoff (h₃ entry rfl hl)) fun _ _ _ _ => trivial
  · rw [finish_eq]
    refine .attemptThen (execute_single _ _ _) (fun a past' _ _ => ?_) fun _ _ _ => trivial
    cases p.layout with
    | none => trivial
    | some layout =>
      exact .attemptThen (execute_single _ _ _) (fun _ _ _ _ => trivial) fun _ _ _ => trivial

/-! ## Traces -/

variable {base : Registry} {files : Files.FileTree} {tasks : List Task}
  {s : Sharing Task.Report} {before after : List Happening} {i : Nat}

theorem single_of_trace (hoff : e.config.caching = false) {q : Query} {r : Request}
    {answer : r.Answer} (hq : tasks[i]? = some (.render q))
    (h : (e.started base files tasks).Trace (before ++ .answered i ⟨r, answer⟩ :: after) s) :
    e.Single (stepsOf i before) r := by
  have hsingle := (answer_single hoff q).weaken (fun r answer (_ : e.Answers r answer) => trivial)
    (fun _ _ => id) fun _ _ => id
  exact followed hsingle hq h

theorem compiled_once (hoff : e.config.caching = false) {q : Query} {key text text' : String}
    {answer answer' : Except ViewError Compiled} {log : List Happening}
    (hq : tasks[i]? = some (.render q)) (h : (e.started base files tasks).Trace log s)
    (hm : .answered i ⟨.compile key text, answer⟩ ∈ log)
    (hm' : .answered i ⟨.compile key text', answer'⟩ ∈ log) : text = text' := by
  obtain ⟨before, after, rfl⟩ := List.append_of_mem hm
  -- Whichever of two compilations is the later one, it would break the rule.
  rcases List.mem_append.1 hm' with hm' | hm'
  · exact absurd rfl (single_of_trace hoff hq h _ _ _ (mem_stepsOf.2 hm'))
  · rcases List.mem_cons.1 hm' with he | hm'
    · cases he
      rfl
    · obtain ⟨mid, rest, rfl⟩ := List.append_of_mem hm'
      rw [← List.cons_append, ← List.append_assoc] at h
      exact absurd rfl (single_of_trace hoff hq h _ _ _
        (mem_stepsOf.2 (List.mem_append_right _ List.mem_cons_self)))

/-- **What replaces a template that a render has compiled is done by another task.** -/
theorem replaced_by_other (hv : e.config.viewPath ≠ "") (hoff : e.config.caching = false)
    {q : Query} {o : Origin} {text : String} {t : Compiled} {first mid : List Happening} {j : Nat}
    {step : Step} (hq : tasks[i]? = some (.render q)) (h : (e.started base files tasks).Trace
      (first ++ .answered i ⟨.compile (e.keyFor o none) text, .ok t⟩ :: mid) s)
    (hx : .answered j step ∈ mid)
    (hr : Happening.Replaces (e.keyFor o none) text (.answered j step)) : j ≠ i := by
  rintro rfl
  obtain ⟨mid, rest, rfl⟩ := List.append_of_mem hx
  rw [← List.cons_append, ← List.append_assoc] at h
  have hcompiled : (⟨.compile (e.keyFor o none) text, .ok t⟩ : Step) ∈ stepsOf j
      (first ++ .answered j ⟨.compile (e.keyFor o none) text, .ok t⟩ :: mid) :=
    mem_stepsOf.2 (List.mem_append_right _ List.mem_cons_self)
  rcases Happening.replaces_cases hr with ⟨k, text', t', hx, -⟩ | ⟨k, source, hx⟩
  · obtain ⟨rfl, rfl⟩ := Happening.answered.inj hx
    exact single_of_trace hoff hq h _ _ _ hcompiled rfl
  · obtain ⟨rfl, rfl⟩ := Happening.answered.inj hx
    rcases single_of_trace hoff hq h with hnone | ⟨word, hw, he⟩
    · exact hnone _ _ _ hcompiled
    · exact partialName_ne_keyFor hv hw o none he.symm

end Engine

end Views
