import Views.Proofs.Engine.Flow
import Views.Proofs.LayoutChoice
import Views.Proofs.Program.Schedule

/-!
# The variables of a render

A render has its variables in three layers, and three of them have a role of their own: the value of
`layout` in all layers chooses the layout, the value of `theme` in the state alone is put before the
name of the view, and the value of `body` is replaced for the layout. `variables_flow` says which
values reach the two executions of a render, the choice of its layout and the name of its view,
whatever other tasks do at the same time.
-/

set_option autoImplicit false

namespace Views

namespace Engine

/-- The value of a variable: that of the call, or else that of the state, or else that of the
engine. -/
def layered (e : Engine) (q : Query) (key : String) : Option Value :=
  Table.get? q.locals key <|> Table.get? q.state key <|> Table.get? e.config.locals key

variable {e : Engine} {q : Query}

/-! ## Layers -/

theorem get?_merged (hstate : Table.Ordered q.state) (hlocals : Table.Ordered q.locals)
    (key : String) : Table.get? (e.merged q) key = e.layered q key := by
  rw [merged, mergeLocals, Table.get?_union _ hlocals, Table.get?_union _ hstate, layered]

theorem ordered_merged (hdefaults : Table.Ordered e.config.locals) :
    Table.Ordered (e.merged q) := (hdefaults.union q.state).union q.locals

theorem get?_scopeData (request : Value) (key : String) :
    Table.get? (e.scopeData request) key =
      if e.config.hostKey = key then some request
      else Table.get? e.config.templateOptions.data key := Table.get?_insert ..

/-! ## The name and the layout -/

theorem logical_eq (q : Query) :
    q.logical = match Files.isAbsolute q.name, Table.get? q.state "theme" with
      | false, some (.string theme) => if theme = "" then q.name else theme ++ "/" ++ q.name
      | _, _ => q.name := by
  unfold Query.logical logicalName themeDirectory
  cases Files.isAbsolute q.name with
  | true => rfl
  | false =>
    cases Table.get? q.state "theme" with
    | none => exact String.empty_append
    | some value =>
      cases value with
      | string theme =>
        by_cases ht : theme = ""
        · simp [ht]
        · simp [ht]
      | _ => exact String.empty_append

theorem chooseLayout_congr {merged merged' : Fields} (text : String)
    (h : Table.get? merged "layout" = Table.get? merged' "layout") :
    chooseLayout merged text = chooseLayout merged' text := by
  unfold chooseLayout
  rw [h]

/-- Of the variables, preparing a render reads the value of `layout` alone. -/
theorem prepare_congr {merged merged' : Fields} (logical : String)
    (h : Table.get? merged "layout" = Table.get? merged' "layout") :
    e.prepare logical merged = e.prepare logical merged' := by
  have hentry (path : String) :
      e.entryFor logical path merged = e.entryFor logical path merged' := by
    simp only [entryFor, chooseLayout_congr _ h]
  simp only [prepare, hentry]

/-- Without an entry to recall, the merged variables and the text of the view have selected the
layout. -/
theorem Has.selected {past : List Step} {p : Prepared} (h : e.Has q past p)
    (hmiss : ∀ entry, (⟨.recallEntry q.logical, some entry⟩ : Step) ∉ past) :
    ∃ text o, e.Made past (.view q.logical) text p.view ∧ e.Selects (e.merged q) text o ∧
      ∀ t, p.layout = some t → (∃ text', e.Made past o text' t) ∨
        chooseLayout (e.merged q) text = .byDefault ∧ e.DefaultOf past t := by
  obtain ⟨text, hview, hlayout⟩ := h.chosen fun entry hm => absurd hm (hmiss entry)
  exact ⟨text, _, hview, selects_iff.2 rfl, hlayout⟩

end Engine

open Engine

/-- **Where the variables of a render go.** Each is that of the call, else that of the state, else
that of the engine. The view is executed on these, and then the layout on the same with what the
view gave as `body`; both in a scope whose data are those of the configuration, with the request.
Unless an entry is recalled for the name of the view, the value of `layout` and the text of the view
select the layout; nothing else of the variables is read before the view is executed. The name is
made with the theme of the state, and it is all that is looked for. -/
theorem variables_flow {e : Engine} {base : Registry} {files : Files.FileTree} {tasks : List Task}
    {log : List Happening} {s : Sharing Task.Report}
    (h : (e.started base files tasks).Trace log s) {i : Nat} {q : Query}
    (hq : tasks[i]? = some (.render q)) (hdefaults : Table.Ordered e.config.locals)
    (hstate : Table.Ordered q.state) (hlocals : Table.Ordered q.locals) :
    (∀ key, Table.get? (e.merged q) key = e.layered q key) ∧
    (∀ before t locals scope answer after,
      log = before ++ .answered i ⟨.execute t locals scope, answer⟩ :: after →
      Table.Ordered locals ∧
      (∀ key, Table.get? scope.data key =
        if e.config.hostKey = key then some q.request
        else Table.get? e.config.templateOptions.data key) ∧
      ∃ p, e.Has q (stepsOf i before) p ∧
        ((executed (stepsOf i before) = [] ∧ t = p.view ∧ scope.blocks = [] ∧
            ∀ key, Table.get? locals key = e.layered q key) ∨
          ∃ body, executed (stepsOf i before) =
              [⟨.execute p.view (e.merged q) (e.startScope q), (.ok body, scope)⟩] ∧
            p.layout = some t ∧ ∀ key, Table.get? locals key =
              if "body" = key then some (.string body) else e.layered q key) ∧
        ((∀ entry, (⟨.recallEntry q.logical, some entry⟩ : Step) ∉ stepsOf i before) →
          ∃ text o, e.Made (stepsOf i before) (.view q.logical) text p.view ∧
            e.Selects (e.merged q) text o ∧ ∀ t, p.layout = some t →
              (∃ text', e.Made (stepsOf i before) o text' t) ∨
                chooseLayout (e.merged q) text = .byDefault ∧ e.DefaultOf (stepsOf i before) t)) ∧
    (∀ result, s.programs[i]? = some (.done (.rendered result)) →
      e.Gives q (stepsOf i log) result) ∧
    (∀ merged, Table.get? merged "layout" = e.layered q "layout" →
      e.prepare q.logical merged = e.prepare q.logical (e.merged q)) ∧
    (∀ before r answer after, log = before ++ .answered i ⟨r, answer⟩ :: after →
      (∃ t locals scope, r = .execute t locals scope) ∨ e.Seeks q.logical r) ∧
    q.logical = match Files.isAbsolute q.name, Table.get? q.state "theme" with
      | false, some (.string theme) => if theme = "" then q.name else theme ++ "/" ++ q.name
      | _, _ => q.name := by
  have hmerged := get?_merged (e := e) hstate hlocals
  refine ⟨hmerged, ?_, fun result hp => given hq h hp,
    fun merged hl => prepare_congr _ (hl.trans (hmerged _).symm), ?_, logical_eq q⟩
  · rintro before t locals scope answer after rfl
    have hexecutes : e.Executes q (stepsOf i before) t locals scope := concerned hq h
    cases hexecutes with
    | view hp hx =>
      exact ⟨ordered_merged hdefaults, get?_scopeData q.request, _, hp,
        .inl ⟨hx, rfl, rfl, hmerged⟩, hp.selected⟩
    | @layout p t body scope hp ht hx =>
      -- The scope is what executing the view has left.
      have hview : (⟨.execute p.view (e.merged q) (e.startScope q), (.ok body, scope)⟩ : Step) ∈
          executed (stepsOf i before) := hx ▸ List.mem_singleton_self _
      obtain ⟨m, hm, -⟩ := h.split
      have hdata := data_of_executed hm (mem_stepsOf.1 (List.mem_of_mem_filter hview))
      refine ⟨(ordered_merged hdefaults).insert _ _, fun key => ?_, p, hp,
        .inr ⟨body, hx, ht, fun key => ?_⟩, hp.selected⟩
      · rw [hdata]
        exact get?_scopeData q.request key
      · rw [layoutLocals, Table.get?_insert, hmerged]
  · rintro before r answer after rfl
    have hconcerns := concerned hq h
    cases r with
    | execute t locals scope => exact .inl ⟨t, locals, scope, rfl⟩
    | _ => exact .inr hconcerns

/-- The layout of a render that has `body`, `layout`, `theme` and one more variable in several
layers, and among the data of the configuration the key of the request. -/
theorem variables_flow_layered :
    let e : Engine := ⟨{
      viewPath := "views"
      locals := [("body", .string "d"), ("k", .string "d"), ("theme", .string "d")]
      templateOptions := { data := [("other", .null), ("request", .null)] } }⟩
    let q : Query := {
      state := [("k", .string "s"), ("layout", .string "none"), ("theme", .string "t")]
      request := .string "r"
      name := "a"
      locals := [("body", .string "c"), ("k", .null), ("layout", .string "l"),
        ("theme", .string "c")] }
    let files : Files.FileTree := ⟨.directory [("views", .directory [
      ("l.hbs", .file "[{{{body}}}]"), ("t", .directory [("a.hbs", .file "{{!< none}}V")])])], []⟩
    let base := (freshRegistry {}).withBlockHelpers "block" "contentFor"
    let start := e.started base files [.render q, .scan]
    let followed := start.follow [.answer 0 5, .answer 1 5, .answer 0 20]
    Table.Ordered e.config.locals ∧ Table.Ordered q.state ∧ Table.Ordered q.locals ∧
      q.logical = "t/a" ∧ e.Gives q (stepsOf 0 followed.1) (.ok "[V]") ∧
      ∃ before t locals scope answer,
        followed.1 = before ++ [.answered 0 ⟨.execute t locals scope, answer⟩] ∧
        Table.get? locals "body" = some (.string "V") ∧ Table.get? locals "k" = some .null ∧
        Table.get? scope.data "request" = some (.string "r") := by
  intro e q files base start followed
  have hdefaults : Table.Ordered e.config.locals := by decide
  have hstate : Table.Ordered q.state := by decide
  have hlocals : Table.Ordered q.locals := by decide
  have hended : followed.2.programs[0]? = some (.done (.rendered (.ok "[V]"))) := by cbv
  have hlast : followed.1.getLast? = some (.answered 0
      ⟨.execute ⟨"layout::views/l.hbs#1", "layout::views/l.hbs#1"⟩
        [("body", .string "V"), ("k", .null), ("layout", .string "l"), ("theme", .string "c")]
        ⟨[], [("other", .null), ("request", .string "r")]⟩,
        (.ok "[V]", ⟨[], [("other", .null), ("request", .string "r")]⟩)⟩) := by
    cbv
  obtain ⟨before, hlog⟩ := List.getLast?_eq_some_iff.1 hlast
  obtain ⟨-, hexecuted, hgives, -, -, hlogical⟩ := variables_flow
    (Sharing.follow_trace [.answer 0 5, .answer 1 5, .answer 0 20] start) (i := 0) (q := q) rfl
    hdefaults hstate hlocals
  obtain ⟨-, hdata, p, -, hvariables, -⟩ := hexecuted _ _ _ _ _ _ hlog
  have hk := hvariables.elim (fun h => h.2.2.2 "k") fun h => h.elim fun _ h => h.2.2 "k"
  have htheme : q.logical = "t/a" := hlogical.trans (by cbv)
  exact ⟨hdefaults, hstate, hlocals, htheme, hgives _ hended, before, _, _, _, _, hlog, rfl, hk,
    hdata "request"⟩

end Views
