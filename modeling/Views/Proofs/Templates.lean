import Views.Proofs.Engine.Confinement
import Views.Proofs.Program.Schedule

/-!
# One table for templates and partials

Compiling a text under a key and registering a text as a partial store it in the same table, so for
a name it only matters which of the two came last. An invariant of the trace carries this: under a
name stands what the text that was stored there last compiles to (`Trace.stands`). What this means
for a look-up, for an execution and for a partial tag is `templates_shared`.
-/

set_option autoImplicit false

namespace Views

open Evaluation

/-! ## What is stored -/

/-- The text that a happening stores under a name, and whether it does so as a partial. -/
def Happening.stored? (name : String) : Happening → Option (String × Bool)
  | answered _ ⟨.compile key text, .ok _⟩ => if key = name then some (text, false) else none
  | answered _ ⟨.registerPartial key text, .ok _⟩ => if key = name then some (text, true) else none
  | _ => none

/-- What was stored last under a name. -/
def lastStored (log : List Happening) (name : String) : Option (String × Bool) :=
  (log.filterMap (Happening.stored? name)).getLast?

section

variable {log before after : List Happening} {x : Happening} {name : String} {entry : String × Bool}

theorem lastStored_concat_some (hx : x.stored? name = some entry) :
    lastStored (log ++ [x]) name = some entry := by
  simp [lastStored, hx]

theorem lastStored_concat_none (hx : x.stored? name = none) :
    lastStored (log ++ [x]) name = lastStored log name := by
  simp [lastStored, hx]

theorem lastStored_of_last (hx : x.stored? name = some entry)
    (hafter : ∀ y ∈ after, y.stored? name = none) :
    lastStored (before ++ x :: after) name = some entry := by
  have hnone : after.filterMap (Happening.stored? name) = [] := List.filterMap_eq_nil_iff.2 hafter
  simp [lastStored, hx, hnone]

theorem lastStored_eq_none : lastStored log name = none ↔ ∀ x ∈ log, x.stored? name = none := by
  rw [lastStored, List.getLast?_eq_none_iff, List.filterMap_eq_nil_iff]

end

namespace Sharing

variable {α : Type} {s s' m : Sharing α} {log : List Happening} {x : Happening}
  {name text : String} {isPartial : Bool}

/-- A happening stores one text under one name, or leaves the registry as it is. -/
theorem Happens.table (h : s.Happens x s') :
    (∃ key text isPartial t, Template.compile key text isPartial = .ok t ∧
      s'.world.registry.templates = s.world.registry.templates.insert key t ∧
      ∀ name, x.stored? name = if key = name then some (text, isPartial) else none) ∨
    s'.world.registry = s.world.registry ∧ ∀ name, x.stored? name = none := by
  cases h with
  | edit files => exact .inr ⟨rfl, fun _ => rfl⟩
  | @answer w ps i r next hi =>
    cases r with
    | compile key text =>
      rw [Engine.perform_compile]
      unfold Engine.compiled
      cases he : Template.elementsOf text false with
      | error err => exact .inr ⟨rfl, fun _ => rfl⟩
      | ok elements =>
        exact .inl ⟨key, text, false, .mk (some key) elements, congrArg _ he, rfl, fun _ => rfl⟩
    | registerPartial key text =>
      rw [Engine.perform_registerPartial]
      cases hc : Template.compile key text true with
      | error err => exact .inr ⟨rfl, fun _ => rfl⟩
      | ok t => exact .inl ⟨key, text, true, t, hc, rfl, fun _ => rfl⟩
    | _ => exact .inr ⟨rfl, fun _ => rfl⟩

theorem Happens.stored (h : s.Happens x s') (hx : x.stored? name = some (text, isPartial)) :
    ∃ t, Template.compile name text isPartial = .ok t ∧
      s'.world.registry.templates.get? name = some t := by
  rcases h.table with ⟨key, text', isPartial', t, hc, htable, hstored⟩ | ⟨-, hstored⟩
  · rw [hstored, Option.ite_none_right_eq_some] at hx
    obtain ⟨rfl, htext⟩ := hx
    cases htext
    exact ⟨t, hc, htable ▸ Table.get?_insert_self ..⟩
  · cases (hstored name).symm.trans hx

theorem Happens.kept (h : s.Happens x s') (hx : x.stored? name = none) :
    s'.world.registry.templates.get? name = s.world.registry.templates.get? name := by
  rcases h.table with ⟨key, text, isPartial, t, -, htable, hstored⟩ | ⟨hregistry, -⟩
  · have hne : key ≠ name := by
      rintro rfl
      cases (if_pos rfl).symm.trans ((hstored key).symm.trans hx)
    rw [htable, Table.get?_insert_ne _ _ hne]
  · rw [hregistry]

theorem Happens.registry_eq (h : s.Happens x s') (hx : ∀ name, x.stored? name = none) :
    s'.world.registry = s.world.registry := by
  rcases h.table with ⟨key, text, isPartial, t, -, -, hstored⟩ | ⟨hregistry, -⟩
  · cases (if_pos rfl).symm.trans ((hstored key).symm.trans (hx key))
  · exact hregistry

/-- **Under a name stands what was stored there last**, or what stood there at the start. -/
theorem Trace.stands (h : s.Trace log s') (name : String) :
    match lastStored log name with
    | some (text, isPartial) => ∃ t, Template.compile name text isPartial = .ok t ∧
        s'.world.registry.templates.get? name = some t
    | none => s'.world.registry.templates.get? name = s.world.registry.templates.get? name := by
  induction h with
  | start => rfl
  | @next log x m s' h hx ih =>
    cases hs : x.stored? name with
    | none =>
      rw [lastStored_concat_none hs, hx.kept hs]
      exact ih
    | some entry =>
      rw [lastStored_concat_some hs]
      exact hx.stored hs

end Sharing

/-! ## What a partial tag includes -/

namespace Evaluation

variable {env : Environment} {enter : Template → Render Unit} {s : State}

/-- How a partial tag without a body includes a template: in the same context and with the
indentation of the tag, and with what belongs to the template around it restored at the end. -/
def included (env : Environment) (enter : Template → Render Unit) (c : PartialCall) (t : Template) :
    Render Unit :=
  tracked (fun s => c.startsLine && (s.lineEnded || c.indent.isSome)) do
    let s ← get
    withContext (s.context env) do
      let indent := match s.indent, c.indent with
        | some outer, some inner => some (outer ++ inner)
        | some outer, none => some outer
        | none, inner => inner
      modify fun s => { s with body? := none, indent }
      enter t
    modify fun after =>
      { after with body? := s.body?, indent := s.indent, current := s.current }

theorem refuseItself_apply {name : String} (h : s.current ≠ some name) :
    refuseItself name s = (.ok (), s) := by
  rw [refuseItself, Frame.get_bind_apply]
  cases hc : s.current with
  | none => rfl
  | some current =>
    have hne : current ≠ name := fun he => h (he ▸ hc)
    simp only [if_neg hne]
    rfl

theorem findPartial_registered {name : String} (h : ∀ c ∈ s.contexts, c.inlines.get? name = none) :
    findPartial env s name = env.registry.templates.get? name := by
  have hnone : s.contexts.findSome? (fun c => c.inlines.get? name) = none :=
    List.findSome?_eq_none_iff.2 h
  rw [findPartial, hnone]
  rfl

theorem inlines_context {name : String} (h : ∀ c ∈ s.contexts, c.inlines.get? name = none) :
    (s.context env).inlines.get? name = none := by
  unfold State.context
  cases hc : s.contexts with
  | nil => rfl
  | cons c cs => exact h c (hc ▸ List.mem_cons_self)

theorem bind_congr_apply {α β : Type} {r r' : Render α} {f : α → Render β} (h : r s = r' s) :
    (r >>= f) s = (r' >>= f) s := by
  rw [Frame.bind_apply, Frame.bind_apply, h]

theorem tracked_congr {f : State → Bool} {r r' : Render Unit}
    (h : r { s with indentNext := f s, produced := false } =
      r' { s with indentNext := f s, produced := false }) : tracked f r s = tracked f r' s := by
  unfold tracked
  rw [Frame.get_bind_apply, Frame.get_bind_apply]
  show (r >>= _) _ = (r' >>= _) _
  exact bind_congr_apply h

theorem withContext_congr {c : Context} {r r' : Render Unit}
    (h : r { s with contexts := c :: s.contexts } = r' { s with contexts := c :: s.contexts }) :
    withContext c r s = withContext c r' s := by
  show (r >>= _) _ = (r' >>= _) _
  exact bind_congr_apply h

/-- A plain tag includes what is registered under its name, unless the name is the one of the
template around the tag, of a partial defined on the way to it, or of the body of a tag. -/
theorem renderPartial_plain {c : PartialCall} {name : String} {t : Template}
    (hc : c.name = .fixed name ∧ c.args = [] ∧ c.hash = []) (hbody : name ≠ bodyName)
    (hcurrent : s.current ≠ some name) (hinlines : ∀ c ∈ s.contexts, c.inlines.get? name = none)
    (ht : env.registry.templates.get? name = some t) :
    renderPartial env enter c none s = included env enter c t s := by
  obtain ⟨fixed, args, hash, indent, startsLine⟩ := c
  obtain ⟨rfl, rfl, rfl⟩ := hc
  simp only [renderPartial, included, evalParams, evalHash, pure_bind, Option.mapM_none, hbody,
    if_false]
  refine tracked_congr ?_
  generalize hs' : ({ s with indentNext := _, produced := false } : State) = s'
  have hcurrent' : s'.current ≠ some name := hs' ▸ hcurrent
  have hinlines' : ∀ c ∈ s'.contexts, c.inlines.get? name = none := hs' ▸ hinlines
  rw [Frame.get_bind_apply, Frame.get_bind_apply, Frame.bind_apply, refuseItself_apply hcurrent']
  refine bind_congr_apply (withContext_congr ?_)
  rw [Frame.get_bind_apply]
  generalize hfound : findPartial env _ name = found
  have hentered : ∀ c ∈ partialContext (s'.context env) [] [] :: s'.contexts,
      c.inlines.get? name = none :=
    List.forall_mem_cons.2 ⟨inlines_context hinlines', hinlines'⟩
  obtain rfl : found = some t := hfound.symm.trans ((findPartial_registered hentered).trans ht)
  rfl

end Evaluation

/-! ## The table as a whole -/

/-- What executing a template on a registry gives, if it stands under the key of a handle. -/
def Registry.executed (r : Registry) (label : String) (t : Template) (locals : Value)
    (scope : Scope) : Except ViewError String × Scope :=
  match renderNested ⟨r, locals⟩ maxNesting t (State.start scope locals) with
  | (.ok _, s) => (.ok s.out, s.scope)
  | (.error err, s) => (.error (.execute label err.message), s.scope)

theorem Registry.execute_of_get? {r : Registry} {key : String} {t : Template}
    (h : r.templates.get? key = some t) (label : String) (locals : Value) (scope : Scope) :
    r.execute ⟨key, label⟩ locals scope = r.executed label t locals scope := by
  simp only [Registry.execute, Registry.render, h, Registry.executed]
  cases renderNested ⟨r, locals⟩ maxNesting t (State.start scope locals) with
  | mk x s => cases x <;> rfl

theorem Registry.hasTemplate_iff {r : Registry} {name : String} :
    r.hasTemplate name = true ↔ ∃ t, r.templates.get? name = some t := Option.isSome_iff_exists

/-- **Templates and partials share one table.** Something is found under a name if it was there at
the start or was stored there since, in either way. What was stored last under a name is what a
handle on the name executes and what a plain partial tag of the name includes. Whatever stores
nothing leaves the registry as it is. -/
theorem templates_shared {α : Type} {s s' : Sharing α} {log : List Happening} (h : s.Trace log s') :
    (∀ i key text t, .answered i ⟨.compile key text, .ok t⟩ ∈ log → t = ⟨key, key⟩) ∧
    (∀ name, s'.world.registry.hasTemplate name = true ↔
      s.world.registry.hasTemplate name = true ∨ ∃ x ∈ log, x.stored? name ≠ none) ∧
    (∀ before x after name text isPartial, log = before ++ x :: after →
      x.stored? name = some (text, isPartial) → (∀ y ∈ after, y.stored? name = none) →
      ∃ t, Template.compile name text isPartial = .ok t ∧
        (∀ label locals scope, s'.world.registry.execute ⟨name, label⟩ locals scope =
          s'.world.registry.executed label t locals scope) ∧
        ∀ (root : Value) (enter : Template → Render Unit) (c : PartialCall) (state : State),
          c.name = .fixed name ∧ c.args = [] ∧ c.hash = [] → name ≠ bodyName →
          state.current ≠ some name → (∀ c ∈ state.contexts, c.inlines.get? name = none) →
          renderPartial ⟨s'.world.registry, root⟩ enter c none state =
            included ⟨s'.world.registry, root⟩ enter c t state) ∧
    ∀ before x after, log = before ++ x :: after → (∀ name, x.stored? name = none) →
      ∃ m m', s.Trace before m ∧ m.Happens x m' ∧ m'.Trace after s' ∧
        m'.world.registry = m.world.registry := by
  refine ⟨fun i key text t hm => ?_, fun name => ?_, ?_, ?_⟩
  · obtain ⟨before, after, rfl⟩ := List.append_of_mem hm
    obtain ⟨m, -, h⟩ := h.split
    obtain ⟨-, -, -, ha, -⟩ := h.asked
    exact (World.holds_compile ha.symm).1
  · have hstands := h.stands name
    rw [Registry.hasTemplate_iff, Registry.hasTemplate_iff]
    cases hl : lastStored log name with
    | none =>
      rw [hl] at hstands
      have hnone := lastStored_eq_none.1 hl
      rw [hstands, iff_self_or]
      rintro ⟨x, hx, hne⟩
      exact absurd (hnone x hx) hne
    | some entry =>
      rw [hl] at hstands
      obtain ⟨t, -, ht⟩ := hstands
      have hstored : ∃ x ∈ log, x.stored? name ≠ none := by
        by_contra hall
        have hnone : lastStored log name = none :=
          lastStored_eq_none.2 fun x hx => by_contra fun hne => hall ⟨x, hx, hne⟩
        cases hl.symm.trans hnone
      exact iff_of_true ⟨t, ht⟩ (.inr hstored)
  · rintro before x after name text isPartial rfl hx hafter
    have hstands := h.stands name
    rw [lastStored_of_last hx hafter] at hstands
    obtain ⟨t, hc, ht⟩ := hstands
    refine ⟨t, hc, Registry.execute_of_get? ht, ?_⟩
    intro root enter c state hcall hbody hcurrent hinlines
    exact renderPartial_plain hcall hbody hcurrent hinlines ht
  · rintro before x after rfl hx
    obtain ⟨m, hm, h⟩ := h.split
    obtain ⟨m', hhappens, h⟩ := h.happens_of_cons
    exact ⟨m, m', hm, hhappens, h, hhappens.registry_eq hx⟩

/-- Some requests, one after the other. -/
def Program.requests : List Request → Program Unit
  | [] => .done ()
  | r :: rs => .ask r fun _ => requests rs

/-- A template is compiled under the name of a partial, and then a text that cannot be compiled is
to replace it. -/
def storedTwice : Sharing Unit :=
  ⟨⟨Stores.fresh (Registry.new false true) true, .empty⟩,
    [Program.requests [.registerPartial "k" "old", .compile "k" "new",
      .registerPartial "k" "\x7b\x7b"]]⟩

theorem follow_storedTwice : (storedTwice.follow [.answer 0 3]).1 =
    [.answered 0 ⟨.registerPartial "k" "old", .ok ()⟩] ++
      .answered 0 ⟨.compile "k" "new", .ok ⟨"k", "k"⟩⟩ ::
      [.answered 0 ⟨.registerPartial "k" "\x7b\x7b",
        .error (.compile "k" (Template.CompileError.malformed.message "k"))⟩] := by
  have hold : Template.elementsOf "old" true = .ok [(.text "old", none)] := by cbv
  have hnew : Template.elementsOf "new" false = .ok [(.text "new", none)] := by cbv
  have hbad : Template.elementsOf "\x7b\x7b" true = .error .malformed := by cbv
  simp [storedTwice, Sharing.follow, Sharing.answer, Program.requests,
    Engine.perform_registerPartial, Engine.perform_compile, Engine.compiled, Template.compile,
    Except.map, hold, hnew, hbad]

theorem templates_shared_storedTwice :
    let r := (storedTwice.follow [.answer 0 3]).2.world.registry
    let tag : PartialCall := ⟨.fixed "k", [], [], none, false⟩
    let state := State.start (Scope.withData []) .null
    r.hasTemplate "k" = true ∧ ∃ t, Template.compile "k" "new" false = .ok t ∧
      (∀ label locals scope,
        r.execute ⟨"k", label⟩ locals scope = r.executed label t locals scope) ∧
      ∀ enter, renderPartial ⟨r, .null⟩ enter tag none state =
        included ⟨r, .null⟩ enter tag t state := by
  intro r tag state
  obtain ⟨-, hhas, hlast, -⟩ := templates_shared (Sharing.follow_trace [.answer 0 3] storedTwice)
  have hafter (err : ViewError) : ∀ y ∈ [Happening.answered 0
      ⟨.registerPartial "k" "\x7b\x7b", .error err⟩], y.stored? "k" = none := by
    intro y hy
    obtain rfl := List.mem_singleton.1 hy
    rfl
  obtain ⟨t, ht, hexecute, htag⟩ := hlast _ _ _ "k" "new" false follow_storedTwice rfl (hafter _)
  have hinlines : ∀ c ∈ state.contexts, c.inlines.get? "k" = none := by
    intro c hc
    obtain rfl := List.mem_singleton.1 hc
    rfl
  have hstored : ∃ x ∈ (storedTwice.follow [.answer 0 3]).1, x.stored? "k" ≠ none := by
    rw [follow_storedTwice]
    exact ⟨_, List.mem_cons_self, nofun⟩
  exact ⟨(hhas "k").2 (.inr hstored), t, ht, hexecute, fun enter =>
    htag .null enter tag state ⟨rfl, rfl, rfl⟩ (by decide) nofun hinlines⟩

/-- What is compiled is found as a partial, and replaced by one; and a tag does not include what is
registered as a partial if the name is the one of a partial in the template, of the body of a tag,
or of the template itself. -/
theorem compiled_replaced_by_partial :
    let r := Registry.new false true
    let scope := Scope.withData []
    (r.compile "k" "old").map (fun x => x.2.hasTemplate "k") = .ok true ∧
      (do
        let (t, r) ← r.compile "k" "old"
        let r ← r.registerPartial "k" "new"
        (r.execute t .null scope).1) = .ok "new" ∧
      (do
        let r ← r.registerPartial "p" "registered"
        let (t, r) ← r.compile "k"
          "\x7b\x7b#*inline \x22p\x22\x7d\x7dinline\x7b\x7b/inline\x7d\x7d{{> p}}"
        (r.execute t .null scope).1) = .ok "inline" ∧
      (do
        let r ← r.registerPartial "@partial-block" "registered"
        let (t, r) ← r.compile "k" "{{> @partial-block}}"
        pure (r.render t.key .null scope).1) =
          .ok (.error ⟨.partialBlockNotFound, some ⟨1, 1⟩, some "k"⟩) ∧
      (do
        let r ← r.registerPartial "k" "registered"
        let (t, r) ← r.compile "k" "{{> k}}"
        pure (r.render t.key .null scope).1) =
          .ok (.error ⟨.selfInclusion, some ⟨1, 1⟩, some "k"⟩) := by
  refine ⟨?_, ?_, ?_, ?_, ?_⟩
  · cbv
  · cbv
  · cbv
  · cbv
  · cbv

end Views
