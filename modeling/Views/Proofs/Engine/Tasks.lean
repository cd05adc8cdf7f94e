import Views.Proofs.Engine.Slots

/-!
# Tasks of an engine

An engine that is in use renders views and registers partials, in any number at once, while the
files change (`Engine.started`). Each task keeps to its rule (`Engine.work_orderly`), so every
request in a log was warranted by the steps that its task had made (`Engine.obeyed`), and what the
cache holds was compiled by some task, from the text of the origin that belongs there
(`Engine.filled`). Whatever other rule a render keeps to by itself, it keeps to it among other tasks
(`Engine.ruled`).
-/

set_option autoImplicit false

namespace Views

/-- What an engine in use can be asked for. -/
inductive Task where
  | render (q : Query)
  /-- To register a partial under a name. -/
  | register (name source : String)
  /-- To scan the directory of the partials. -/
  | scan

/-- What a task ends with. -/
inductive Task.Report where
  | rendered (result : Except ViewError String)
  | registered (result : Except ViewError Unit)
  | scanned (count : Nat)

namespace Engine

variable (e : Engine)

/-- The program of a task. -/
def work : Task → Program Task.Report
  | .render q => (e.answer q).bind fun result => .done (.rendered result)
  | .register name source =>
    (Program.request (.registerPartial name source)).bind fun result => .done (.registered result)
  | .scan => e.partials.registerAll.bind fun count => .done (.scanned count)

/-- An engine that has done nothing yet, with tasks that are all to be done at once. -/
def started (base : Registry) (files : Files.FileTree) (tasks : List Task) : Sharing Task.Report :=
  ⟨e.world base files, tasks.map e.work⟩

/-- What the task at a place executes. -/
def Due (tasks : List Task) (i : Nat) : List Step → Compiled → Fields → Scope → Prop :=
  match tasks[i]? with
  | some (.render q) => e.Owes q
  | _ => fun _ _ _ _ => False

/-- The stores of an engine: the cache is enabled if there is caching, and what was found for a name
is the path of its file. -/
structure Sane (w : World) : Prop where
  enabled : w.cache.enabled = e.config.caching
  paths : ∀ name path, w.paths.get? name = some path → path = e.resolver.templatePath name

variable {e} {w : World} {X : List Step → Compiled → Fields → Scope → Prop} {past : List Step}

theorem sane_world (base : Registry) (files : Files.FileTree) : e.Sane (e.world base files) :=
  ⟨rfl, fun _ _ h => by cases h⟩

theorem Sane.answers (h : e.Sane w) (r : Request) : e.Answers r (w.perform r).1 := by
  have hoff {α : Type} (x : Option α) : (if w.cache.enabled then x else none) = none ∨
      e.config.caching = true := by
    rw [h.enabled]
    cases e.config.caching with
    | true => exact .inr rfl
    | false => exact .inl rfl
  cases r with
  | recallPath name => exact h.paths name
  | recallEntry name => exact hoff _
  | recallDefault => exact hoff _
  | _ => trivial

theorem Sane.perform (h : e.Sane w) {r : Request} (hr : e.Warranted X past r) :
    e.Sane (w.perform r).2 := by
  rw [World.perform_world]
  cases r with
  | storePath name path =>
    refine ⟨h.enabled, fun other path' hp => ?_⟩
    change (w.paths.insert name path).get? other = some path' at hp
    rw [Table.get?_insert] at hp
    split at hp
    · rename_i hn
      cases hp
      exact hn ▸ hr
    · exact h.paths _ _ hp
  | storeEntry name entry => exact ⟨(Cache.enabled_insert ..).trans h.enabled, h.paths⟩
  | storeDefault t => exact ⟨(Cache.enabled_setDefaultLayout ..).trans h.enabled, h.paths⟩
  | _ => exact ⟨h.enabled, h.paths⟩

/-- **Each task keeps to its rule.** -/
theorem work_orderly {tasks : List Task} {i : Nat} {task : Task} (h : tasks[i]? = some task) :
    e.Orderly (e.Due tasks i) (fun _ _ => True) (e.work task) past := by
  unfold Due
  rw [h]
  cases task with
  | render q => exact .bind (answer_orderly q) fun _ _ _ _ => trivial
  | register name source => exact ⟨trivial, fun _ _ => trivial⟩
  | scan => exact .bind registerAll_orderly fun _ _ _ _ => trivial

theorem Due.owes {tasks : List Task} {i : Nat} {t : Compiled} {locals : Fields} {scope : Scope}
    (h : e.Due tasks i past t locals scope) :
    ∃ q, tasks[i]? = some (.render q) ∧ e.Owes q past t locals scope := by
  unfold Due at h
  cases ht : tasks[i]? with
  | none => rw [ht] at h; exact h.elim
  | some task =>
    rw [ht] at h
    cases task with
    | render q => exact ⟨q, rfl, h⟩
    | _ => exact h.elim

variable {base : Registry} {files : Files.FileTree} {tasks : List Task}
  {s : Sharing Task.Report} {log before after : List Happening}

theorem exists_task {i : Nat} {p : Program Task.Report}
    (hp : (e.started base files tasks).programs[i]? = some p) :
    ∃ task, tasks[i]? = some task ∧ e.work task = p := by
  rwa [started, List.getElem?_map, Option.map_eq_some_iff] at hp

/-- What every warranted step keeps holds all the time. -/
theorem kept {K : List Happening → World → Prop} (h : (e.started base files tasks).Trace log s)
    (hstart : K [] (e.world base files))
    (hanswer : ∀ log w i r, e.Sane w → K log w → e.Warranted (e.Due tasks i) (stepsOf i log) r →
      K (log ++ [.answered i ⟨r, (w.perform r).1⟩]) (w.perform r).2)
    (hedit : ∀ log w files, K log w → K (log ++ [.edited files]) { w with files }) :
    (e.Sane s.world ∧ K log s.world) ∧ ∀ (i : Nat) (p : Program Task.Report),
      s.programs[i]? = some p → e.Orderly (e.Due tasks i) (fun _ _ => True) p (stepsOf i log) := by
  refine h.keeps (J := fun log w => e.Sane w ∧ K log w) ⟨sane_world base files, hstart⟩
    (fun i p hp => ?_) (fun log w i r hJ hr => ?_) fun log w files hJ => ?_
  · obtain ⟨task, ht, rfl⟩ := exists_task hp
    exact work_orderly ht
  · exact ⟨hJ.1.answers r, hJ.1.perform hr, hanswer log w i r hJ.1 hJ.2 hr⟩
  · exact ⟨⟨hJ.1.enabled, hJ.1.paths⟩, hedit log w files hJ.2⟩

/-- **Every request was warranted when it was made.** -/
theorem obeyed {i : Nat} {r : Request} {answer : r.Answer}
    (h : (e.started base files tasks).Trace (before ++ .answered i ⟨r, answer⟩ :: after) s) :
    e.Warranted (e.Due tasks i) (stepsOf i before) r := by
  obtain ⟨m, h, h'⟩ := h.split
  obtain ⟨next, -, hi, -⟩ := h'.asked
  have hkept := kept (K := fun _ _ => True) h trivial (fun _ _ _ _ _ _ _ => trivial)
    fun _ _ _ _ => trivial
  exact (hkept.2 i _ hi).1

section

variable {q : Query} {i : Nat} {D : List Step → Request → Prop}
  {Q : Except ViewError String → List Step → Prop}

/-- **What a render keeps to by itself it keeps to in every trace**, whatever the other tasks do. -/
theorem ruled (hD : (e.answer q).Keeps e.Answers D Q []) (hq : tasks[i]? = some (.render q))
    (h : (e.started base files tasks).Trace log s) {p : Program Task.Report}
    (hp : s.programs[i]? = some p) :
    p.Keeps e.Answers D (fun report past => ∀ result, report = .rendered result → Q result past)
      (stepsOf i log) := by
  -- The rule of all tasks is kept as well, since only then the answers are within `Answers`.
  have hkeeps := h.keeps (J := fun _ w => e.Sane w)
    (D := fun j past r => e.Warranted (e.Due tasks j) past r ∧ (j = i → D past r))
    (Q := fun j report past =>
      True ∧ (j = i → ∀ result, report = .rendered result → Q result past))
    (sane_world base files) (fun j p hp => ?_)
    (fun log w j r hw hr => ⟨hw.answers r, hw.perform hr.1⟩)
    fun log w files hw => ⟨hw.enabled, hw.paths⟩
  · exact (hkeeps.2 i p hp).weaken (fun _ _ => id) (fun _ _ hr => hr.2 rfl) fun _ _ hq => hq.2 rfl
  · obtain ⟨task, ht, rfl⟩ := exists_task hp
    refine (work_orderly ht).both ?_
    by_cases hj : j = i
    · obtain rfl := Option.some.inj (hq.symm.trans (hj ▸ ht))
      refine .bind (hD.weaken (fun _ _ => id) (fun _ _ hr _ => hr) fun result past hresult => ?_)
      rintro - _ ⟨⟩
      exact hresult
    · exact .mono (.of_forall (fun _ _ h => absurd h hj) _ _) fun _ _ _ h => absurd h hj

theorem followed (hD : (e.answer q).Keeps e.Answers D Q []) (hq : tasks[i]? = some (.render q))
    {r : Request} {answer : r.Answer}
    (h : (e.started base files tasks).Trace (before ++ .answered i ⟨r, answer⟩ :: after) s) :
    D (stepsOf i before) r := by
  obtain ⟨m, h, h'⟩ := h.split
  obtain ⟨next, -, hi, -⟩ := h'.asked
  exact (ruled hD hq h hi).1

end

/-! ## What the cache holds -/

/-- A template was compiled by one of the tasks, from the text of an origin. -/
def MadeIn (e : Engine) (log : List Happening) (o : Origin) (text : String) (t : Compiled) : Prop :=
  ∃ i, e.Made (stepsOf i log) o text t

/-- What may stand in a slot: an entry that one of the tasks has compiled for the name, and the
default layout. -/
def Belongs (e : Engine) (log : List Happening) : (slot : Slot) → slot.Content → Prop
  | .entry name, entry => ∃ i locals text, e.Filed (stepsOf i log) name locals text entry
  | .byDefault, t => ∃ text, e.MadeIn log (e.originOf .byDefault) text t

theorem stepsOf_prefix_append (i : Nat) (log log' : List Happening) :
    stepsOf i log <+: stepsOf i (log ++ log') := by
  rw [stepsOf_append]
  exact List.prefix_append _ _

theorem MadeIn.append {o : Origin} {text : String} {t : Compiled} (h : e.MadeIn log o text t)
    (log' : List Happening) : e.MadeIn (log ++ log') o text t :=
  h.imp fun i hi => hi.mono (stepsOf_prefix_append i log log')

theorem Belongs.append {slot : Slot} {x : slot.Content} (h : e.Belongs log slot x)
    (log' : List Happening) : e.Belongs (log ++ log') slot x := by
  cases slot with
  | entry name =>
    obtain ⟨i, locals, text, hf⟩ := h
    exact ⟨i, locals, text, hf.mono (stepsOf_prefix_append i log log')⟩
  | byDefault => exact h.imp fun text ht => ht.append log'

theorem belongs_of_warranted {i : Nat} (slot : Slot) {x : slot.Content}
    (h : e.Warranted X (stepsOf i log) (slot.stored x).1) : e.Belongs log slot x := by
  cases slot with
  | entry name => exact ⟨i, h.2⟩
  | byDefault => exact h.2.imp fun text ht => ⟨i, ht⟩

/-- **What the cache holds was compiled by some task, from the origin that belongs there.** -/
theorem filled (h : (e.started base files tasks).Trace log s) {slot : Slot} {x : slot.Content}
    (hx : slot.get? s.world.cache = some x) : e.Belongs log slot x := by
  have hkept := kept (K := fun log w => ∀ (slot : Slot) (x : slot.Content),
    slot.get? w.cache = some x → e.Belongs log slot x) h ?_ ?_ ?_
  · exact hkept.1.2 slot x hx
  · intro slot x hx
    cases (slot.get?_empty e.config.caching).symm.trans hx
  · intro log w i r _ hK hr slot x hx
    -- What the step leaves belonged there before, and what it stores was warranted.
    rcases slot.get?_perform w r with hsame | ⟨y, hstored, hy⟩
    · exact (hK slot x (hsame ▸ hx)).append _
    · obtain rfl := Option.some.inj (hx.symm.trans hy)
      rw [show r = (slot.stored x).1 from congrArg Sigma.fst hstored] at hr
      exact (belongs_of_warranted slot hr).append _
  · exact fun log w files hK slot x hx => (hK slot x hx).append _

end Engine

end Views
