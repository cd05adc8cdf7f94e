import Views.Evaluation.Render
import Views.Proofs.Registry

/-!
# Comparing evaluations

What a template can include is in its partial tags: `Template.inclusions` are their names, and a
template is `Template.Within` some names if all its tags have one of them, fixed. A `Frame` is a
pair of registries that agree on such names and on nothing else, so that an evaluation on the one
and the same evaluation on the other stay in step: `Frame.Twin` says that they end with related
values and states, or with errors that differ at most in the template that they name. It is kept by
every way in which evaluations are put together.
-/

set_option autoImplicit false

namespace Views

/-! ## Inclusions -/

mutual

/-- The names in the partial tags of a template. -/
def Template.inclusions : Template → List PartialName
  | .mk _ elements => Template.inclusionsOf elements

/-- The names in the partial tags of some elements. -/
def Template.inclusionsOf : List (Element × Option Position) → List PartialName
  | [] => []
  | (element, _) :: rest => element.inclusions ++ Template.inclusionsOf rest

/-- The names in the partial tags of an element. -/
def Element.inclusions : Element → List PartialName
  | .block _ body none _ => body.inclusions
  | .block _ body (some alternative) _ => body.inclusions ++ alternative.inclusions
  | .inclusion c none => [c.name]
  | .inclusion c (some body) => c.name :: body.inclusions
  | .decorator _ (some body) => body.inclusions
  | _ => []

end

/-- All partial tags have a fixed name, and one of some names. -/
def PartialName.Within (names : String → Prop) (tags : List PartialName) : Prop :=
  ∀ tag ∈ tags, ∃ name, tag = .fixed name ∧ names name

/-- All partial tags of a template have one of some names. -/
def Template.Within (names : String → Prop) (t : Template) : Prop :=
  PartialName.Within names t.inclusions

namespace PartialName

variable {names : String → Prop} {tag : PartialName} {tags tags' : List PartialName}

@[simp] theorem within_nil : Within names [] := nofun

@[simp] theorem within_cons : Within names (tag :: tags) ↔
    (∃ name, tag = .fixed name ∧ names name) ∧ Within names tags :=
  List.forall_mem_cons

@[simp] theorem within_append :
    Within names (tags ++ tags') ↔ Within names tags ∧ Within names tags' :=
  List.forall_mem_append

end PartialName

namespace Evaluation

/-! ## Frames -/

/-- Two environments that agree on some names. The rendering that is compared starts with a
template that stands under one key in the first and under another in the second. -/
structure Frame where
  names : String → Prop
  env : Environment
  env' : Environment
  key : String
  key' : String
  like : env.registry.Like env'.registry
  root : env.root = env'.root
  same : ∀ name, names name → name ≠ bodyName →
    env.registry.templates.get? name = env'.registry.templates.get? name
  within : ∀ name t, names name → name ≠ bodyName →
    env.registry.templates.get? name = some t → t.Within names
  keys : key = key' ∨ ¬ names key ∧ ¬ names key'

namespace Frame

variable (F : Frame)

/-- The same name, or the two keys. -/
def Named (name name' : Option String) : Prop :=
  name = name' ∨ name = some F.key ∧ name' = some F.key'

/-- Errors that differ at most in the template that they name. -/
structure Err (err err' : RenderError) : Prop where
  reason : err.reason = err'.reason
  place : err.place = err'.place
  template : F.Named err.template err'.template

/-- The partials defined in a context include others by the names of the frame. -/
def Tame (c : Context) : Prop := ∀ name t, c.inlines.get? name = some t → t.Within F.names

/-- States that differ at most in the template that is rendered, in tame contexts. -/
structure Similar (s s' : State) : Prop where
  rest : s' = { s with current := s'.current }
  current : F.Named s.current s'.current
  tame : ∀ c ∈ s.contexts, F.Tame c

/-- Related values in similar states, or similar errors. -/
def Ends {α : Type} (P : α → α → Prop) (x x' : Except RenderError α × State) : Prop :=
  match x, x' with
  | (.ok a, s), (.ok a', s') => P a a' ∧ F.Similar s s'
  | (.error err, _), (.error err', _) => F.Err err err'
  | _, _ => False

/-- Evaluations that stay in step. -/
def Twin {α : Type} (P : α → α → Prop) (r r' : Render α) : Prop :=
  ∀ s s', F.Similar s s' → F.Ends P (r s) (r' s')

variable {F}

/-! ## States -/

@[simp] theorem named_refl (name : Option String) : F.Named name name := .inl rfl

theorem Named.or {a a' b b' : Option String} (h : F.Named a a') (h' : F.Named b b') :
    F.Named (a <|> b) (a' <|> b') := by
  rcases h with rfl | ⟨rfl, rfl⟩
  · cases a with
    | none => simpa using h'
    | some _ => exact .inl rfl
  · exact .inr ⟨rfl, rfl⟩

/-- Similar errors are the same if the two keys are. -/
theorem Err.eq {err err' : RenderError} (h : F.Err err err') (hk : F.key = F.key') :
    err = err' := by
  obtain ⟨reason, place, template⟩ := err
  obtain ⟨reason', place', template'⟩ := err'
  obtain ⟨rfl, rfl, ht⟩ := h
  rcases ht with rfl | ⟨rfl, rfl⟩
  · rfl
  · rw [hk]

theorem tame_of_nil {c : Context} (h : c.inlines = []) : F.Tame c := by
  intro name t ht
  rw [h] at ht
  cases ht

theorem Similar.start (scope : Scope) (root : Value) :
    F.Similar (State.start scope root) (State.start scope root) where
  rest := rfl
  current := named_refl _
  tame c hc := by
    rw [State.start, List.mem_singleton] at hc
    subst hc
    exact tame_of_nil rfl

/-- The innermost contexts are the same, and tame. -/
theorem Similar.context {s s' : State} (h : F.Similar s s') :
    s'.context F.env' = s.context F.env ∧ F.Tame (s.context F.env) := by
  refine ⟨?_, ?_⟩
  · rw [h.rest, State.context, State.context, F.root]
  · unfold State.context
    cases hc : s.contexts with
    | nil => exact tame_of_nil rfl
    | cons c cs => exact h.tame c (hc ▸ List.mem_cons_self)

/-! ## Putting evaluations together -/

variable {α β : Type} {P : α → α → Prop} {Q : β → β → Prop}

theorem bind_apply (r : Render α) (f : α → Render β) (s : State) :
    (r >>= f) s = match r s with
      | (.ok a, t) => f a t
      | (.error err, t) => (.error err, t) := by
  show (match r s with | (a, t) => ExceptT.bindCont f a t) = _
  cases r s with
  | mk x t => cases x <;> rfl

theorem get_bind_apply (f : State → Render α) (s : State) : (get >>= f) s = f s s := rfl

theorem modify_bind_apply (f : State → State) (g : PUnit → Render α) (s : State) :
    (modify f >>= g) s = g () (f s) := rfl

/-- What two evaluations end with is related in one of two ways. -/
theorem Ends.cases {x x' : Except RenderError α × State} (h : F.Ends P x x') :
    (∃ a a' s s', x = (.ok a, s) ∧ x' = (.ok a', s') ∧ P a a' ∧ F.Similar s s') ∨
      ∃ err err' s s', x = (.error err, s) ∧ x' = (.error err', s') ∧ F.Err err err' := by
  obtain ⟨r, s⟩ := x
  obtain ⟨r', s'⟩ := x'
  cases r with
  | ok a =>
    cases r' with
    | ok a' => exact .inl ⟨a, a', s, s', rfl, rfl, h⟩
    | error err' => exact h.elim
  | error err =>
    cases r' with
    | ok a' => exact h.elim
    | error err' => exact .inr ⟨err, err', s, s', rfl, rfl, h⟩

namespace Twin

theorem pure {a a' : α} (h : P a a') : F.Twin P (pure a) (pure a') := fun _ _ hs => ⟨h, hs⟩

theorem fail (reason : Reason) : F.Twin P (fail reason) (fail reason) :=
  fun _ _ _ => ⟨rfl, rfl, named_refl _⟩

theorem bind {r r' : Render α} {f f' : α → Render β} (h : F.Twin P r r')
    (hf : ∀ a a', P a a' → F.Twin Q (f a) (f' a')) : F.Twin Q (r >>= f) (r' >>= f') := by
  intro s s' hs
  rw [bind_apply, bind_apply]
  rcases (h s s' hs).cases with
    ⟨a, a', t, t', hr, hr', hp, ht⟩ | ⟨err, err', t, t', hr, hr', he⟩
  · rw [hr, hr']
    exact hf a a' hp t t' ht
  · rw [hr, hr']
    exact he

/-- Goes on with one value. -/
theorem bind_eq {r r' : Render α} {f f' : α → Render β} (h : F.Twin Eq r r')
    (hf : ∀ a, F.Twin Q (f a) (f' a)) : F.Twin Q (r >>= f) (r' >>= f') :=
  bind h fun a _ ha => ha ▸ hf a

/-- Goes on with the state, in which the second evaluation may have another template. -/
theorem get_bind {f f' : State → Render β} (h : ∀ s current, F.Named s.current current →
    (∀ c ∈ s.contexts, F.Tame c) → F.Twin Q (f s) (f' { s with current })) :
    F.Twin Q (get >>= f) (get >>= f') := by
  intro s s' hs
  have hf := h s s'.current hs.current hs.tame
  rw [← hs.rest] at hf
  exact hf s s' hs

theorem modify {f f' : State → State} (h : ∀ s current, F.Named s.current current →
    (∀ c ∈ s.contexts, F.Tame c) → F.Similar (f s) (f' { s with current })) :
    F.Twin Eq (modify f) (modify f') := by
  intro s s' hs
  have hf := h s s'.current hs.current hs.tame
  rw [← hs.rest] at hf
  exact ⟨rfl, hf⟩

theorem modifyGet {f f' : State → α × State} (h : ∀ s current, F.Named s.current current →
    (∀ c ∈ s.contexts, F.Tame c) →
      P (f s).1 (f' { s with current }).1 ∧ F.Similar (f s).2 (f' { s with current }).2) :
    F.Twin P (modifyGet f) (modifyGet f') := by
  intro s s' hs
  have hf := h s s'.current hs.current hs.tame
  rw [← hs.rest] at hf
  exact hf

theorem ite {c : Prop} [Decidable c] {r₁ r₂ r₁' r₂' : Render α} (h₁ : F.Twin P r₁ r₁')
    (h₂ : F.Twin P r₂ r₂') : F.Twin P (if c then r₁ else r₂) (if c then r₁' else r₂') := by
  split
  · exact h₁
  · exact h₂

theorem liftReason (x : Except Reason α) : F.Twin Eq (liftReason x) (liftReason x) := by
  cases x with
  | ok a => exact pure rfl
  | error reason => exact fail reason

theorem locate {r r' : Render α} (h : F.Twin P r r') {template template' : Option String}
    (ht : F.Named template template') (place : Option Position) :
    F.Twin P (locate template place r) (locate template' place r') := by
  intro s s' hs
  unfold Evaluation.locate
  rcases (h s s' hs).cases with
    ⟨a, a', t, t', hr, hr', hp⟩ | ⟨err, err', t, t', hr, hr', he⟩
  · rw [hr, hr']
    exact hp
  · rw [hr, hr']
    exact ⟨he.reason, congrArg (· <|> place) he.place, he.template.or ht⟩

theorem forM {γ : Type} {f f' : γ → Render PUnit} (h : ∀ c, F.Twin Eq (f c) (f' c)) (cs : List γ) :
    F.Twin Eq (cs.forM f) (cs.forM f') := by
  induction cs with
  | nil => exact pure rfl
  | cons c cs ih => exact bind_eq (h c) fun _ => ih

/-! ## Output -/

theorem capture {r r' : Render Unit} (h : F.Twin Eq r r') : F.Twin Eq (capture r) (capture r') :=
  bind_eq (modifyGet fun _ _ hc ht => ⟨rfl, rfl, hc, ht⟩) fun _ =>
    bind_eq h fun _ => modifyGet fun _ _ hc ht => ⟨rfl, rfl, hc, ht⟩

theorem emit (text : String) : F.Twin Eq (emit text) (emit text) :=
  modify fun _ _ hc ht => ⟨rfl, hc, ht⟩

theorem write (text : String) : F.Twin Eq (write text) (write text) := by
  unfold Evaluation.write
  exact ite (pure rfl) (modify fun _ _ hc ht => ⟨rfl, hc, ht⟩)

theorem tracked {f f' : State → Bool} (hf : ∀ s current, f s = f' { s with current })
    {r r' : Render Unit} (h : F.Twin Eq r r') : F.Twin Eq (tracked f r) (tracked f' r') := by
  refine get_bind fun before _ _ _ => bind_eq (modify fun s current hc ht => ⟨?_, hc, ht⟩) fun _ =>
    bind_eq h fun _ => modify fun s current hc ht => ?_
  · rw [hf s current]
  · show F.Similar (if s.produced then _ else _) (if s.produced then _ else _)
    split
    · exact ⟨rfl, hc, ht⟩
    · exact ⟨rfl, hc, ht⟩

theorem writeValue (v : Value) : F.Twin Eq (writeValue F.env v) (writeValue F.env' v) := by
  refine get_bind fun s current _ _ => ?_
  rw [F.like.escaping]
  exact write _

theorem withContext {c : Context} (hc : F.Tame c) {r r' : Render Unit} (h : F.Twin Eq r r') :
    F.Twin Eq (withContext c r) (withContext c r') :=
  bind_eq (modify fun _ _ hn ht => ⟨rfl, hn, List.forall_mem_cons.2 ⟨hc, ht⟩⟩) fun _ =>
    bind_eq h fun _ => modify fun _ _ hn ht => ⟨rfl, hn, fun c hm => ht c (List.mem_of_mem_tail hm)⟩

end Twin

end Frame

end Evaluation

end Views
