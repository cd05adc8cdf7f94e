import Views.Proofs.Engine.Confinement
import Views.Proofs.Evaluation.Account
import Views.Proofs.LayoutChoice
import Views.Proofs.Precedence

/-!
# Renders without a layout

A render that selects no layout executes the identity layout around its body. That is a template
like any other: one tag, which writes the variable `body` as it is. So the output is the body,
whatever it consists of and whatever the other variables are (`execute_identity`), unless a helper
has the name of the variable (`execute_identity_helper`). Nothing keeps a configuration from giving
this name to a helper for content blocks, and then each such render fails (`body_alone`).
-/

set_option autoImplicit false

namespace Views

open Evaluation

/-! ## The identity layout -/

/-- The reference to the body. -/
def bodyReference : Reference := ⟨"body", .relative 0 ["body"]⟩

/-- A tag that writes the body as it is. -/
def bodyTag : Element × Option Position := (.value (.reference bodyReference) false, some ⟨1, 1⟩)

theorem elementsOf_identitySource :
    Template.elementsOf Engine.identitySource false = .ok [bodyTag] := by
  cbv

namespace Evaluation

variable {env : Environment} {s : State} {locals : Fields} {body : String}

theorem evalReference_body (hs : s.contexts = [.of (.object locals)])
    (hbody : Table.get? locals "body" = some (.string body)) :
    evalReference env bodyReference s = (.ok ⟨some "body", some (.string body)⟩, s) := by
  have hresolve : resolve env.root s.contexts bodyReference.target = .ok (some (.string body)) := by
    simp [hs, resolve, bodyReference, blockParam?, Context.of, below, hbody]
  rw [evalReference, Frame.get_bind_apply, hresolve]
  rfl

theorem write_apply (text : String) (hindent : s.indent = none) :
    ∃ s', write text s = (.ok (), s') ∧ s'.out = s.out ++ text ∧ s'.scope = s.scope := by
  by_cases htext : text = ""
  · exact ⟨s, by rw [write, if_pos htext]; rfl, by rw [htext, String.append_empty], rfl⟩
  · have hindented : s.indented text = text := by rw [State.indented, hindent]
    rw [write, if_neg htext]
    exact ⟨_, rfl, congrArg (s.out ++ ·) hindented, rfl⟩

theorem writeValue_verbatim (text : String) (hoff : s.escapeOff = true) :
    writeValue env (.string text) s = write text s := by
  rw [writeValue, Frame.get_bind_apply, hoff]
  rfl

/-- Without a helper of its name the tag writes the body. -/
theorem renderAlone_body (hs : s.contexts = [.of (.object locals)]) (hoff : s.escapeOff = true)
    (hnone : env.registry.helpers.get? "body" = none)
    (hbody : Table.get? locals "body" = some (.string body)) :
    renderAlone env (.reference bodyReference) s = write body s := by
  have hcontains : ¬ env.registry.helpers.contains bodyReference.raw = true := by
    rw [Table.contains, show env.registry.helpers.get? bodyReference.raw = none from hnone]
    decide
  rw [renderAlone, nameOf, pure_bind, if_neg hcontains, Frame.bind_apply, evalParam,
    evalReference_body hs hbody]
  exact writeValue_verbatim body hoff

/-- With a helper for content blocks of this name the tag calls it, without the name of a block. -/
theorem renderAlone_helper (env : Environment) (s : State) {h : Helper}
    (hhelper : env.registry.helpers.get? "body" = some h)
    (hcontent : h = .emitBlock ∨ h = .captureBlock) :
    ∃ s', renderAlone env (.reference bodyReference) s =
      (.error ⟨.blockNameExpected "body", none, none⟩, s') := by
  have hcontains : env.registry.helpers.contains bodyReference.raw = true := by
    rw [Table.contains, show env.registry.helpers.get? bodyReference.raw = some h from hhelper]
    rfl
  have hfind : findHelper env bodyReference.raw "helperMissing" = .ok h := by
    rw [findHelper, show env.registry.helpers.get? bodyReference.raw = some h from hhelper]
    rfl
  have hrun (t : State) : runHelper env h ⟨"body", [], [], [], none, none⟩ t =
      (.error ⟨.blockNameExpected "body", none, none⟩, t) := by
    rcases hcontent with rfl | rfl <;> rfl
  rw [renderAlone, nameOf, pure_bind, if_pos hcontains, pure_bind, callHelper, invocation]
  simp only [evalParams, evalHash, pure_bind, Bool.false_eq_true, if_false, hfind]
  rw [tracked, Frame.get_bind_apply, Frame.modify_bind_apply, Frame.bind_apply]
  rw [show (liftReason (.ok h) : Render Helper) = pure h from rfl, pure_bind,
    show bodyReference.raw = "body" from rfl, hrun]
  exact ⟨_, rfl⟩

/-- The state of the identity layout before its tag. -/
def identityStart (key : String) (scope : Scope) (root : Value) : State :=
  { State.start scope root with current := some key, escapeOff := true }

theorem renderNested_bodyTag (n : Nat) (key : String) (scope : Scope) (root : Value) :
    renderNested env (n + 1) (.mk (some key) [bodyTag]) (State.start scope root) =
      match renderAlone env (.reference bodyReference) (identityStart key scope root) with
      | (.ok (), s) => (.ok (), { s with escapeOff := false })
      | (.error err, s) => (.error { err with
          place := err.place <|> some ⟨1, 1⟩, template := err.template <|> some key }, s) := by
  simp only [renderNested, renderTemplate, bodyTag, renderElements, renderElement, escapedIf,
    Bool.false_eq_true, if_false]
  rw [Frame.modify_bind_apply, Frame.bind_apply, locate_apply, Frame.modify_bind_apply,
    Frame.bind_apply]
  generalize hx : renderAlone env (.reference bodyReference) _ = x
  rw [show renderAlone env (.reference bodyReference) (identityStart key scope root) = x from hx]
  obtain ⟨result, s⟩ := x
  cases result <;> rfl

end Evaluation

namespace Registry

variable {r : Registry} {key body : String} {locals : Fields}

/-- What executing the identity layout is as an evaluation of its tag. -/
theorem execute_bodyTag (h : r.Holds key Engine.identitySource) (root : Value) (scope : Scope) :
    r.execute ⟨key, key⟩ root scope =
      match renderAlone ⟨r, root⟩ (.reference bodyReference) (identityStart key scope root) with
      | (.ok (), s) => (.ok s.out, s.scope)
      | (.error err, s) =>
        (.error (.execute key (RenderError.message { err with
          place := err.place <|> some ⟨1, 1⟩, template := err.template <|> some key })),
          s.scope) := by
  obtain ⟨elements, he, hget⟩ := h
  obtain rfl := Except.ok.inj (elementsOf_identitySource.symm.trans he)
  obtain ⟨n, hn⟩ : ∃ n, maxNesting = n + 1 := ⟨1999, rfl⟩
  simp only [execute, render, hget, hn, renderNested_bodyTag]
  cases renderAlone ⟨r, root⟩ (.reference bodyReference) (identityStart key scope root) with
  | mk x s => cases x <;> rfl

/-- **The identity layout writes the body**, and leaves the scope as it is. -/
theorem execute_identity (h : r.Holds key Engine.identitySource)
    (hnone : r.helpers.get? "body" = none)
    (hbody : Table.get? locals "body" = some (.string body)) (scope : Scope) :
    r.execute ⟨key, key⟩ (.object locals) scope = (.ok body, scope) := by
  have halone : renderAlone ⟨r, .object locals⟩ (.reference bodyReference)
      (identityStart key scope (.object locals)) =
        write body (identityStart key scope (.object locals)) :=
    renderAlone_body rfl rfl hnone hbody
  obtain ⟨s, hwrite, hout, hscope⟩ :=
    write_apply (s := identityStart key scope (.object locals)) body rfl
  have hs : s.out = body := hout.trans String.empty_append
  rw [execute_bodyTag h, halone, hwrite]
  exact Prod.ext (congrArg Except.ok hs) hscope

/-- The error of the identity layout if the body cannot be reached. -/
def bodyHidden (key : String) : ViewError :=
  .execute key (RenderError.message ⟨.blockNameExpected "body", some ⟨1, 1⟩, some key⟩)

/-- A helper for content blocks with the name of the variable hides the body. -/
theorem execute_identity_helper {helper : Helper} (h : r.Holds key Engine.identitySource)
    (hhelper : r.helpers.get? "body" = some helper)
    (hcontent : helper = .emitBlock ∨ helper = .captureBlock) (root : Value) (scope : Scope) :
    (r.execute ⟨key, key⟩ root scope).1 = .error (bodyHidden key) := by
  obtain ⟨s, halone⟩ :=
    renderAlone_helper ⟨r, root⟩ (identityStart key scope root) hhelper hcontent
  rw [execute_bodyTag h, halone]
  rfl

theorem ran_identity (h : r.Holds key Engine.identitySource) (hnone : r.helpers.get? "body" = none)
    (hbody : Table.get? locals "body" = some (.string body)) (scope : Scope) :
    r.ran ⟨key, key⟩ locals scope = .ok (body, scope) := by
  rw [ran, execute_identity h hnone hbody]
  rfl

theorem ran_identity_helper {helper : Helper} (h : r.Holds key Engine.identitySource)
    (hhelper : r.helpers.get? "body" = some helper)
    (hcontent : helper = .emitBlock ∨ helper = .captureBlock) (scope : Scope) :
    r.ran ⟨key, key⟩ locals scope = .error (bodyHidden key) := by
  rw [ran, execute_identity_helper h hhelper hcontent]
  rfl

end Registry

/-! ## Renders -/

namespace Engine

variable {e : Engine} {files : Files.FileTree} {q : Query} {text : String}

/-- The helper that the tag of the identity layout finds. -/
theorem helpers_body {r : Registry} (hr : r.helpers = Helper.builtin) (config : Config) :
    (r.withBlockHelpers config.blockHelperName config.contentHelperName).helpers.get? "body" =
      if config.contentHelperName = "body" then some .captureBlock
      else if config.blockHelperName = "body" then some .emitBlock
      else none := by
  have hbuiltin : Helper.builtin.get? "body" = none := by decide
  simp only [Registry.withBlockHelpers, Registry.withHelper, Table.get?_insert, hr, hbuiltin]

/-- What a render plans that selects the identity layout. -/
theorem plan_identity {r : Registry} {i j : Option Nat} {p : Prepared}
    (hp : e.plan files q.logical (e.ownChoice files q) i j = .ok p)
    (hstocked : e.Stocked files q r i j)
    (ht : e.textOf files (.view q.logical) = .ok text)
    (hs : e.Selects (e.merged q) text .identity) :
    p.layout = some ⟨identityKey, identityKey⟩ ∧ r.Holds identityKey identitySource := by
  have hf : e.found files q.logical = true := by
    by_contra hf
    rw [plan, if_neg hf] at hp
    cases hp
  obtain ⟨-, text', ht', ⟨elements, he, -⟩, -⟩ := (hstocked p hp).1
  obtain rfl := Except.ok.inj (ht.symm.trans ht')
  have hview : e.Usable files (.view q.logical) text := ⟨ht, elements, he⟩
  have horigin : e.originOf (chooseLayout (e.merged q) text) = .identity := (selects_iff.1 hs).symm
  have hlayout : e.planLayout files (chooseLayout (e.merged q) text) j =
      .ok (some ⟨identityKey, identityKey⟩) := by
    have husable : e.Usable files (e.originOf (chooseLayout (e.merged q) text)) identitySource :=
      horigin ▸ usable_identity
    rw [planLayout_of_usable husable, horigin]
    rfl
  have hplanned := hp
  rw [plan_of_usable hf hview, hlayout] at hplanned
  obtain rfl := Except.ok.inj hplanned
  refine ⟨rfl, ?_⟩
  obtain ⟨-, source, hsource, hholds, -⟩ := (hstocked _ hp).2 _ rfl
  rw [ownChoice_of_usable hview, horigin] at hsource
  obtain rfl := Except.ok.inj hsource
  exact hholds

/-- **Without a layout a render gives the body**, whatever it is, unless one of the helpers for
content blocks is called `body`; then it ends with an error. -/
theorem body_alone {config : Config} {r base : Registry} (hb : build config r = .ok (e, base))
    (hr : r.helpers = Helper.builtin) (ht : e.textOf files (.view q.logical) = .ok text)
    (hs : e.Selects (e.merged q) text .identity) :
    let run := (e.answer q).run (e.world base files)
    ∀ view body left, (executions run.steps).head? = some view →
      run.world.registry.ran view (e.merged q) (e.startScope q) = .ok (body, left) →
      e.Held files run.world.registry (.view q.logical) view ∧
        executions run.steps = [view, ⟨identityKey, identityKey⟩] ∧
        run.result =
          if config.blockHelperName = "body" ∨ config.contentHelperName = "body" then
            .error (Registry.bodyHidden identityKey)
          else .ok body := by
  intro run view body left hview hran
  obtain ⟨-, -, hbase⟩ := of_build hb
  obtain ⟨hlike, i, j, -, -, hstocked, hplan⟩ := fresh_answer hb files q
  cases hp : e.plan files q.logical (e.ownChoice files q) i j with
  | error err =>
    rw [hp] at hplan
    rw [show executions run.steps = [] from hplan.2] at hview
    cases hview
  | ok p =>
    rw [hp] at hplan
    obtain ⟨hresult, hexecutions⟩ := hplan
    obtain rfl : p.view = view := by
      have hhead : (executions run.steps).head? = some p.view := by
        rw [show executions run.steps = _ from hexecutions]
        split <;> rfl
      exact Option.some.inj (hhead.symm.trans hview)
    obtain ⟨hlayout, hholds⟩ := plan_identity hp hstocked ht hs
    rw [show run.world.registry.ran p.view _ _ = _ from hran, hlayout] at hexecutions
    rw [finished_of_ok hran, hlayout] at hresult
    refine ⟨(hstocked p hp).1, hexecutions, hresult.trans ?_⟩
    have hhelpers := helpers_body hr config
    rw [← hbase, hlike.helpers] at hhelpers
    by_cases hcontent : config.contentHelperName = "body"
    · rw [if_pos hcontent] at hhelpers
      rw [if_pos (.inr hcontent)]
      simp only [Registry.ran_identity_helper hholds hhelpers (.inr rfl), Except.map]
    rw [if_neg hcontent] at hhelpers
    by_cases hblock : config.blockHelperName = "body"
    · rw [if_pos hblock] at hhelpers
      rw [if_pos (.inl hblock)]
      simp only [Registry.ran_identity_helper hholds hhelpers (.inl rfl), Except.map]
    · rw [if_neg hblock] at hhelpers
      rw [if_neg (not_or.2 ⟨hblock, hcontent⟩)]
      have hbody : Table.get? (e.layoutLocals q body) "body" = some (.string body) :=
        Table.get?_insert_self ..
      simp only [Registry.ran_identity hholds hhelpers hbody, Except.map]

/-- A view that writes a variable `body` of the call, without the layout that is configured. -/
theorem body_alone_without_default :
    let config : Config := { viewPath := "views", defaultLayout := some "l" }
    let e : Engine := ⟨config⟩
    let base := (freshRegistry {}).withBlockHelpers "block" "contentFor"
    let q : Query := { name := "a", locals := [("body", .string "&"), ("layout", .bool false)] }
    let files : Files.FileTree :=
      ⟨.directory [("views", .directory [("a.hbs", .file "<{{body}}>")])], []⟩
    build config (freshRegistry {}) = .ok (e, base) ∧
      ((e.answer q).run (e.world base files)).result = .ok "<&amp;>" := by
  intro config e base q files
  have hb : build config (freshRegistry {}) = .ok (e, base) := rfl
  have ht : e.textOf files (.view q.logical) = .ok "<{{body}}>" := by cbv
  have hs : e.Selects (e.merged q) "<{{body}}>" .identity := selects_iff.2 (by cbv)
  have hview : (executions ((e.answer q).run (e.world base files)).steps).head? =
      some ⟨"view::views/a.hbs#0", "view::views/a.hbs#0"⟩ := by
    cbv
  have hran : ((e.answer q).run (e.world base files)).world.registry.ran
      ⟨"view::views/a.hbs#0", "view::views/a.hbs#0"⟩ (e.merged q) (e.startScope q) =
        .ok ("<&amp;>", e.startScope q) := by
    cbv
  exact ⟨hb, (body_alone hb rfl ht hs _ _ _ hview hran).2.2⟩

/-- The configuration is valid, the view can be executed, and the render fails. -/
theorem body_hidden_by_helper :
    let config : Config := { viewPath := "views", blockHelperName := "body" }
    let e : Engine := ⟨config⟩
    let base := (freshRegistry {}).withBlockHelpers "body" "contentFor"
    let q : Query := { name := "a" }
    let files : Files.FileTree :=
      ⟨.directory [("views", .directory [("a.hbs", .file "V")])], []⟩
    let view : Compiled := ⟨"view::views/a.hbs#0", "view::views/a.hbs#0"⟩
    let run := (e.answer q).run (e.world base files)
    build config (freshRegistry {}) = .ok (e, base) ∧ e.Selects (e.merged q) "V" .identity ∧
      executions run.steps = [view, ⟨identityKey, identityKey⟩] ∧
      run.world.registry.ran view (e.merged q) (e.startScope q) = .ok ("V", e.startScope q) ∧
      run.result = .error (.execute "layout::@identity"
        ("Error rendering \"layout::@identity\" line 1, col 1: " ++
          "Helper `body` requires a block name")) := by
  intro config e base q files view run
  have hprepare : (Program.run (e.prepare q.logical (e.merged q)) (e.world base files)).result =
      .ok ⟨view, some ⟨identityKey, identityKey⟩⟩ := by
    cbv
  obtain ⟨hresult, hworld, hexecutions⟩ := answer_run hprepare rfl
  have hran : run.world.registry.ran view (e.merged q) (e.startScope q) =
      .ok ("V", e.startScope q) := by
    rw [show run.world = _ from hworld]
    cbv
  have hholds : run.world.registry.Holds identityKey identitySource := by
    refine ⟨[bodyTag], elementsOf_identitySource, ?_⟩
    rw [show run.world = _ from hworld]
    cbv
  have hhelper : run.world.registry.helpers.get? "body" = some .emitBlock := by
    rw [show run.world = _ from hworld]
    cbv
  rw [← show run.world = _ from hworld] at hresult hexecutions
  rw [finished_of_ok hran] at hresult
  rw [hran] at hexecutions
  refine ⟨rfl, selects_iff.2 (by cbv), hexecutions, hran, hresult.trans ?_⟩
  simp only [Registry.ran_identity_helper hholds hhelper (.inl rfl), Except.map]
  rfl

end Engine

end Views
