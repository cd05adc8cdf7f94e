import Views.Proofs.Engine.Numbers
import Views.Proofs.Engine.Serve
import Views.Proofs.Engine.Single
import Views.Proofs.Program.Schedule

/-!
# Renders without caching

Without caching a render executes what it has compiled itself, from texts that it has read itself
(`Engine.Own`). But all renders of a file share its key, and between compiling and executing there
are other requests. So a render executes another text if in between another render compiles another
version of the file, or a partial with the name of the key is registered
(`executed_own_or_overtaken`).
-/

set_option autoImplicit false

namespace Views

namespace Engine

/-- What a render executes it has made itself: the view from a text of its file, and the layout from
a text of the origin that the text of the view chooses. -/
inductive Own (e : Engine) (q : Query) (past : List Step) :
    Origin → String → Compiled → Fields → Scope → Prop
  | view {text : String} {t : Compiled} (h : e.Made past (.view q.logical) text t) :
      Own e q past (.view q.logical) text t (e.merged q) (e.startScope q)
  | layout {source body text : String} {view t : Compiled} {scope : Scope}
      (hv : e.Made past (.view q.logical) source view)
      (hx : (⟨.execute view (e.merged q) (e.startScope q), (.ok body, scope)⟩ : Step) ∈ past)
      (h : e.Made past (e.originOf (chooseLayout (e.merged q) source)) text t) :
      Own e q past (e.originOf (chooseLayout (e.merged q) source)) text t (e.layoutLocals q body)
        scope

/-- A text was read in the file of an origin; the layout that writes the body alone has one text. -/
def Sourced (e : Engine) (past : List Step) (o : Origin) (text : String) : Prop :=
  match e.fileOf o with
  | some (_, path) => (⟨.read path, .ok text⟩ : Step) ∈ past
  | none => text = identitySource

/-- Another task has stored something else under the key of a template: a render that had read
another text in the same file, or one that registers a partial of that name. -/
def Overtaken (e : Engine) (i : Nat) (before mid : List Happening) (o : Origin) (text : String) :
    Prop :=
  (∃ j kind path text' t, j ≠ i ∧ e.fileOf o = some (kind, path) ∧ text' ≠ text ∧
      (⟨.read path, .ok text'⟩ : Step) ∈ stepsOf j before ∧
      .answered j ⟨.compile (e.keyFor o none) text', .ok t⟩ ∈ mid) ∨
    ∃ j source, j ≠ i ∧ .answered j ⟨.registerPartial (e.keyFor o none) source, .ok ()⟩ ∈ mid

variable {e : Engine} {base : Registry} {files : Files.FileTree} {tasks : List Task}
  {s : Sharing Task.Report} {log : List Happening} {past : List Step} {i : Nat} {q : Query}
  {o : Origin} {text : String} {t : Compiled}

/-! ## What a render has made itself -/

theorem Has.own (hoff : e.config.caching = false) {p : Prepared} (h : e.Has q past p) :
    ∃ source, e.Made past (.view q.logical) source p.view ∧ ∀ t, p.layout = some t →
      ∃ text, e.Made past (e.originOf (chooseLayout (e.merged q) source)) text t := by
  obtain ⟨source, hview, hlayout⟩ := h.chosen fun _ _ => hoff
  refine ⟨source, hview, fun t ht => ?_⟩
  rcases hlayout t ht with hmade | ⟨hd, hdefault⟩
  · exact hmade
  · rw [hd]
    exact hdefault.resolve_left fun h => by cases h.2.symm.trans hoff

theorem Owes.own (hoff : e.config.caching = false) {locals : Fields} {scope : Scope}
    (h : e.Owes q past t locals scope) : ∃ o text, e.Own q past o text t locals scope := by
  cases h with
  | view hp =>
    obtain ⟨source, hv, -⟩ := hp.own hoff
    exact ⟨_, source, .view hv⟩
  | layout hp ht hx =>
    obtain ⟨source, hv, hl⟩ := hp.own hoff
    obtain ⟨text, hmade⟩ := hl _ ht
    exact ⟨_, text, .layout hv hx hmade⟩

theorem Own.made {locals : Fields} {scope : Scope} (h : e.Own q past o text t locals scope) :
    e.Made past o text t := by
  cases h with
  | view h => exact h
  | layout _ _ h => exact h

theorem Made.compiled_keyFor (hoff : e.config.caching = false) (h : e.Made past o text t) :
    (⟨.compile (e.keyFor o none) text, .ok t⟩ : Step) ∈ past := by
  cases h with
  | @file _ kind path n _ _ ho hn h =>
    cases n with
    | some n => cases hn.trans hoff
    | none =>
      rw [show e.keyFor o none = keyOf kind path none by rw [keyFor, ho]]
      exact h.subset (List.mem_cons_of_mem _ List.mem_cons_self)
  | identity h => exact h

theorem Made.sourced (h : e.Made past o text t) : e.Sourced past o text := by
  cases h with
  | file ho hn h =>
    rw [Sourced, ho]
    exact h.subset List.mem_cons_self
  | identity h => rfl

/-! ## What can come in between -/

theorem MayCompile.sourced (hv : e.config.viewPath ≠ "") (hoff : e.config.caching = false)
    (h : e.MayCompile past (e.keyFor o none) text) : e.Sourced past o text := by
  have hnone : e.Numbered none := hoff.symm
  generalize hk : e.keyFor o none = key at h
  cases h with
  | @file o' kind path n _ ho hr hn =>
    cases n with
    | some n => cases hn.1.symm.trans hoff
    | none =>
      have hk' : e.keyFor o' none = keyOf kind path none := by rw [keyFor, ho]
      have hfile := fileOf_of_keyFor hv hnone hnone (hk.trans hk'.symm)
      rwa [Sourced, hfile, ho]
  | identity =>
    have hfile : e.fileOf o = e.fileOf .identity := fileOf_of_keyFor hv hnone hnone hk
    rw [Sourced, hfile]
    rfl

theorem overtaken_of_replaces (hv : e.config.viewPath ≠ "") (hoff : e.config.caching = false)
    {first mid : List Happening} {x : Happening} (hq : tasks[i]? = some (.render q))
    (h : (e.started base files tasks).Trace
      (first ++ .answered i ⟨.compile (e.keyFor o none) text, .ok t⟩ :: mid) s)
    (hmade : e.Made past o text t) (hx : x ∈ mid) (hr : x.Replaces (e.keyFor o none) text) :
    e.Overtaken i (first ++ .answered i ⟨.compile (e.keyFor o none) text, .ok t⟩ :: mid) mid o
      text := by
  rcases Happening.replaces_cases hr with ⟨j, text', t', rfl, hne⟩ | ⟨j, source, rfl⟩
  · have hne' := replaced_by_other hv hoff hq h hx hr
    -- When the other task compiled its text, it had read it in the file that the key belongs to.
    obtain ⟨early, late, rfl⟩ := List.append_of_mem hx
    rw [← List.cons_append, ← List.append_assoc] at h ⊢
    have hother := MayCompile.sourced hv hoff (obeyed h)
    have hown := hmade.sourced
    cases ho : e.fileOf o with
    | none =>
      rw [Sourced, ho] at hother hown
      exact absurd (hother.trans hown.symm) hne
    | some file =>
      rw [Sourced, ho] at hother
      exact .inl ⟨j, file.1, file.2, text', t', hne', ho, hne,
        (stepsOf_prefix_append j _ _).subset hother, hx⟩
  · exact .inr ⟨j, source, replaced_by_other hv hoff hq h hx hr, hx⟩

/-- A text that nobody has changed is overtaken only by a partial with the name of a key. -/
theorem not_overtaken {before mid : List Happening}
    (h : (e.started base files tasks).Trace before s) (hmid : mid ⊆ before)
    (hedits : ∀ files, .edited files ∉ before) (hp : Apart before)
    (hmade : e.Made (stepsOf i before) o text t) : ¬ e.Overtaken i before mid o text := by
  rintro (⟨j, kind, path, text', t', -, ho, hne, hread, -⟩ | ⟨j, source, -, hx⟩)
  · have hown := hmade.sourced
    rw [Sourced, ho] at hown
    have htext := h.read_eq hedits (mem_stepsOf.1 hown)
    have htext' := h.read_eq hedits (mem_stepsOf.1 hread)
    exact hne (Except.ok.inj (htext'.symm.trans htext))
  · exact hp _ (List.mem_filterMap.2 ⟨_, hmid hx, rfl⟩) (e.keyLike_keyFor o none)

end Engine

open Engine

/-- **Without caching a render executes its own texts, if it is not overtaken.** Renders,
registrations of partials and changes of the files may interleave in any way. A render makes its
templates of an origin from one text; what it executes it has made itself, and it is the text that
it has read that is executed, unless another task has stored something else under the key since. -/
theorem executed_own_or_overtaken {config : Config} {r base : Registry} {e : Engine}
    {files : Files.FileTree} {tasks : List Task} {log : List Happening} {s : Sharing Task.Report}
    (hb : build config r = .ok (e, base)) (hoff : config.disableCache = true)
    (h : (e.started base files tasks).Trace log s) {i : Nat} {q : Query}
    (hq : tasks[i]? = some (.render q)) {before after : List Happening} {t : Compiled}
    {locals : Fields} {scope : Scope} {answer : Except ViewError String × Scope}
    (hlog : log = before ++ .answered i ⟨.execute t locals scope, answer⟩ :: after) :
    (∀ o text text' t t', e.Made (stepsOf i before) o text t →
        e.Made (stepsOf i before) o text' t' → text = text') ∧
      ∃ (o : Origin) (text : String) (m : Sharing Task.Report) (first mid : List Happening),
        e.Own q (stepsOf i before) o text t locals scope ∧
        before = first ++ .answered i ⟨.compile (e.keyFor o none) text, .ok t⟩ :: mid ∧
        (e.started base files tasks).Trace before m ∧
        answer = m.world.registry.execute t (.object locals) scope ∧
        (m.world.registry.Holds t.key text ∨ e.Overtaken i before mid o text) ∧
        ((∀ files, .edited files ∉ before) → Apart before → m.world.registry.Holds t.key text) := by
  obtain ⟨rfl, hv, -⟩ := of_build hb
  have hoff : e.config.caching = false := by rw [Config.caching, hoff]; rfl
  subst hlog
  have hdue := obeyed h
  obtain ⟨m, hm, h'⟩ := h.split
  obtain ⟨-, -, -, hanswer, -⟩ := h'.asked
  refine ⟨fun o text text' t t' hmade hmade' => ?_, ?_⟩
  · exact compiled_once hoff hq hm (mem_stepsOf.1 (hmade.compiled_keyFor hoff))
      (mem_stepsOf.1 (hmade'.compiled_keyFor hoff))
  obtain ⟨q', hq', howes⟩ := hdue.owes
  obtain rfl := Task.render.inj (Option.some.inj (hq.symm.trans hq'))
  obtain ⟨o, text, hown⟩ := howes.own hoff
  -- The template was compiled before, and what counts is what has happened since.
  obtain ⟨first, mid, hbefore⟩ :=
    List.append_of_mem (mem_stepsOf.1 (hown.made.compiled_keyFor hoff))
  have hcut := hm
  rw [hbefore] at hcut
  have hstands : m.world.registry.Holds t.key text ∨ e.Overtaken i before mid o text := by
    by_cases hr : ∃ x ∈ mid, x.Replaces (e.keyFor o none) text
    · obtain ⟨x, hx, hr⟩ := hr
      exact .inr (hbefore ▸ overtaken_of_replaces hv hoff hq hcut hown.made hx hr)
    · obtain ⟨ht, hh⟩ := hcut.holds_compiled fun x hx hx' => hr ⟨x, hx, hx'⟩
      exact .inl (ht ▸ hh)
  refine ⟨o, text, m, first, mid, hown, hbefore, hm, hanswer, hstands, fun hedits hp => ?_⟩
  refine hstands.resolve_right (not_overtaken hm ?_ hedits hp hown.made)
  rw [hbefore]
  exact fun x hx => List.mem_append_right _ (List.mem_cons_of_mem _ hx)

/-- A view with some text, and a layout. -/
def viewAndLayout (text : String) : Files.FileTree :=
  ⟨.directory [("views", .directory [("a.hbs", .file text), ("l.hbs", .file "[{{{body}}}]")])], []⟩

/-- A render that goes on after another one has compiled the view again executes its own text, as
long as the files are as they were. -/
theorem executed_own_unedited :
    let config : Config := { viewPath := "views", disableCache := true }
    let e : Engine := ⟨config⟩
    let base := (freshRegistry {}).withBlockHelpers "block" "contentFor"
    let q : Query := { name := "a" }
    let start := e.started base (viewAndLayout "V") [.render q, .render q]
    let followed := start.follow [.answer 0 5, .answer 1 5, .answer 0 5]
    build config (freshRegistry {}) = .ok (e, base) ∧
      ∃ before t locals scope answer,
        followed.1 = before ++ [.answered 0 ⟨.execute t locals scope, answer⟩] ∧
        ∃ (o : Origin) (text : String) (m : Sharing Task.Report),
          e.Own q (stepsOf 0 before) o text t locals scope ∧ m.world.registry.Holds t.key text ∧
          answer = m.world.registry.execute t (.object locals) scope := by
  intro config e base q start followed
  have hb : build config (freshRegistry {}) = .ok (e, base) := rfl
  have hlast : followed.1.getLast? = some (.answered 0
      ⟨.execute ⟨"view::views/a.hbs", "view::views/a.hbs"⟩ [] (e.startScope q),
        (.ok "V", e.startScope q)⟩) := by
    cbv
  have hregistered : followed.1.filterMap Happening.registered? = [] := by cbv
  obtain ⟨before, hlog⟩ := List.getLast?_eq_some_iff.1 hlast
  have hmem {x : Happening} (hx : x ∈ before) : x ∈ followed.1 :=
    hlog ▸ List.mem_append_left _ hx
  obtain ⟨-, o, text, m, first, mid, hown, -, -, hanswer, -, hholds⟩ := executed_own_or_overtaken
    hb rfl (Sharing.follow_trace _ start) (i := 0) (q := q) rfl hlog
  refine ⟨hb, before, _, _, _, _, hlog, o, text, m, hown, hholds ?_ ?_, hanswer⟩
  · intro files hx
    simpa using Sharing.edit_of_edited (hmem hx)
  · intro name hname
    obtain ⟨x, hx, hn⟩ := List.mem_filterMap.1 hname
    have hx := List.mem_filterMap.2 ⟨x, hmem hx, hn⟩
    rw [hregistered] at hx
    cases hx

/-- The file that a step reads, with its text. -/
def Step.read? : Step → Option (String × String)
  | ⟨.read path, .ok text⟩ => some (path, text)
  | _ => none

/-- A render is overtaken by another one, which reads the view after it has changed: it puts the new
text into the layout that the old one chooses. And it is overtaken by a scan of the partials, where
one has the name of its key. -/
theorem executed_other :
    (let e : Engine := ⟨{ viewPath := "views", disableCache := true }⟩
      let base := (freshRegistry {}).withBlockHelpers "block" "contentFor"
      let q : Query := { name := "a" }
      let start := e.started base (viewAndLayout "{{!< l}}old") [.render q, .render q]
      let followed := start.follow
        [.answer 0 5, .edit (viewAndLayout "new"), .answer 1 20, .answer 0 20]
      start.Trace followed.1 followed.2 ∧ (stepsOf 0 followed.1).filterMap Step.read? =
          [("views/a.hbs", "{{!< l}}old"), ("views/l.hbs", "[{{{body}}}]")] ∧
        followed.2.programs[0]? = some (.done (.rendered (.ok "[new]")))) ∧
    let e : Engine := ⟨{ viewPath := "views", partialsPath := "partials", disableCache := true }⟩
    let base := (freshRegistry {}).withBlockHelpers "block" "contentFor"
    let files : Files.FileTree :=
      ⟨.directory [("partials", .directory [("view::views", .directory [("a.hbs.hbs", .file "P")]),
          ("z.hbs", .file none)]),
        ("views", .directory [("a.hbs", .file "{{!< l}}V"), ("l.hbs", .file "[{{{body}}}]")])], []⟩
    let start := e.started base files [.render { name := "a" }, .scan]
    let followed := start.follow [.answer 0 10, .answer 1 20, .answer 0 20]
    start.Trace followed.1 followed.2 ∧
      followed.2.programs[0]? = some (.done (.rendered (.ok "[P]"))) := by
  refine ⟨⟨Sharing.follow_trace _ _, ?_, ?_⟩, Sharing.follow_trace _ _, ?_⟩
  · cbv
  · cbv
  · cbv

end Views
