import Views.Proofs.Evaluation.Frame

/-!
# What holds of every rendering

A predicate on evaluations is `Closed` if it is kept by the ways in which evaluations are put
together, and holds of the few that concern the scope: the two helpers for content blocks and the
helpers that read the data. Such a predicate holds of the rendering of every template, by induction
on its tree, and of what it includes to any depth (`Closed.renderNested`).
-/

set_option autoImplicit false

namespace Views.Evaluation

/-- A state with another scope. -/
def State.withScope (s : State) (scope : Scope) : State := { s with scope }

/-- A body for which a predicate holds, if it is there. -/
def Body (C : (α : Type) → Render α → Prop) (body : Option (Render Unit)) : Prop :=
  ∀ r, body = some r → C Unit r

/-- A predicate that is kept by the ways in which evaluations are put together. What looks at the
state or changes it here concerns the parts other than the scope. -/
structure Closed (env : Environment) (C : (α : Type) → Render α → Prop) : Prop where
  pure : ∀ {α : Type} (a : α), C α (pure a)
  fail : ∀ {α : Type} (reason : Reason), C α (fail reason)
  bind : ∀ {α β : Type} {r : Render α} {f : α → Render β}, C α r → (∀ a, C β (f a)) →
    C β (r >>= f)
  look : ∀ {α : Type} {f : State → Render α}, (∀ s scope, f (s.withScope scope) = f s) →
    (∀ s, C α (f s)) → C α (get >>= f)
  modify : ∀ {f : State → State}, (∀ s scope, f (s.withScope scope) = (f s).withScope scope) →
    C PUnit (modify f)
  modifyGet : ∀ {α : Type} {f : State → α × State},
    (∀ s scope, f (s.withScope scope) = ((f s).1, (f s).2.withScope scope)) → C α (modifyGet f)
  locate : ∀ {α : Type} {r : Render α}, C α r → ∀ template place, C α (locate template place r)
  captureBlock : ∀ {inv : Invocation}, Body C inv.body → C Unit (runHelper env .captureBlock inv)
  emitBlock : ∀ {inv : Invocation}, Body C inv.body → C Unit (runHelper env .emitBlock inv)
  ofScopeData : ∀ {inv : Invocation} (text : Fields → String),
    C Unit (runHelper env (.ofScopeData text) inv)

namespace Closed

variable {env : Environment} {C : (α : Type) → Render α → Prop} {α : Type} {inv : Invocation}
  {body alternative : Option (Render Unit)} (hC : Closed env C)

theorem body_none : Body C none := nofun

theorem body_some {r : Render Unit} (h : C Unit r) : Body C (some r) := by
  rintro _ ⟨⟩
  exact h

theorem ite {c : Prop} [Decidable c] {r₁ r₂ : Render α} (h₁ : C α r₁) (h₂ : C α r₂) :
    C α (if c then r₁ else r₂) := by
  split
  · exact h₁
  · exact h₂

include hC

/-! ## Steps -/

theorem liftReason (x : Except Reason α) : C α (liftReason x) := by
  cases x with
  | ok a => exact hC.pure a
  | error reason => exact hC.fail reason

theorem forM {γ : Type} {f : γ → Render PUnit} (h : ∀ c, C PUnit (f c)) (cs : List γ) :
    C PUnit (cs.forM f) := by
  induction cs with
  | nil => exact hC.pure _
  | cons c cs ih => exact hC.bind (h c) fun _ => ih

theorem capture {r : Render Unit} (h : C Unit r) : C String (capture r) :=
  hC.bind (hC.modifyGet fun _ _ => rfl) fun _ => hC.bind h fun _ => hC.modifyGet fun _ _ => rfl

theorem emit (text : String) : C Unit (emit text) := hC.modify fun _ _ => rfl

theorem write (text : String) : C Unit (write text) := by
  unfold Evaluation.write
  exact ite (hC.pure _) (hC.modify fun _ _ => rfl)

theorem writeValue (v : Value) : C Unit (writeValue env v) :=
  hC.look (fun _ _ => rfl) fun _ => hC.write _

theorem tracked {f : State → Bool} (hf : ∀ s scope, f (s.withScope scope) = f s) {r : Render Unit}
    (h : C Unit r) : C Unit (tracked f r) := by
  refine hC.look (fun _ _ => rfl) fun before => hC.bind (hC.modify fun s scope => ?_) fun _ =>
    hC.bind h fun _ => hC.modify fun s scope => ?_
  · rw [hf]
    rfl
  · show (if s.produced then _ else _) = State.withScope (if s.produced then _ else _) scope
    split <;> rfl

theorem withContext (c : Context) {r : Render Unit} (h : C Unit r) : C Unit (withContext c r) :=
  hC.bind (hC.modify fun _ _ => rfl) fun _ => hC.bind h fun _ => hC.modify fun _ _ => rfl

theorem escapedIf (escaped : Bool) {r : Render Unit} (h : C Unit r) :
    C Unit (escapedIf escaped r) :=
  ite h (hC.bind (hC.modify fun _ _ => rfl) fun _ => hC.bind h fun _ =>
    hC.modify fun _ _ => rfl)

/-! ## Calls of helpers -/

theorem orNothing (h : Body C body) : C Unit (orNothing body) := by
  cases body with
  | none => exact hC.pure _
  | some r => exact h r rfl

theorem otherwise (ha : Body C inv.alternative) (e : Evaluated) : C Unit (otherwise env inv e) := by
  unfold Evaluation.otherwise
  split
  · exact ha _ (by assumption)
  · exact ite (hC.fail _) (hC.pure _)

theorem loop {r : Render Unit} (h : C Unit r) (steps : List Context) : C Unit (loop env steps r) :=
  hC.withContext _ (hC.forM (fun _ => hC.bind (hC.modify fun _ _ => rfl) fun _ => h) steps)

theorem runEach (hb : Body C inv.body) (ha : Body C inv.alternative) :
    C Unit (runEach env inv) := by
  refine hC.bind (hC.liftReason _) fun e => ?_
  split
  · exact hC.pure _
  · have hbody := hb _ (by assumption)
    split
    · exact ite (hC.otherwise ha e) (hC.loop hbody _)
    · exact ite (hC.otherwise ha e) (hC.loop hbody _)
    · exact hC.otherwise ha e

theorem runWithin (hb : Body C inv.body) (ha : Body C inv.alternative) :
    C Unit (runWithin env inv) :=
  hC.bind (hC.liftReason _) fun e => ite
    (hC.look (fun _ _ => rfl) fun _ => hC.withContext _ (hC.orNothing hb)) (hC.otherwise ha e)

theorem runCondition (hb : Body C inv.body) (ha : Body C inv.alternative) (positive : Bool) :
    C Unit (runCondition positive inv) :=
  hC.bind (hC.liftReason _) fun _ => ite (hC.orNothing hb) (hC.orNothing ha)

theorem runLog : C Unit (runLog inv) := by
  unfold Evaluation.runLog
  split
  · exact ite (hC.pure _) (hC.fail _)
  · exact hC.pure _

theorem runTest (hb : Body C inv.body) (ha : Body C inv.alternative) (truth : Bool) :
    C Unit (runTest inv truth) := by
  unfold Evaluation.runTest
  split
  · exact ite (hb _ (by assumption)) (hC.orNothing ha)
  · exact hC.emit _

/-- A closed predicate holds of a call of any helper, if it does of the bodies. -/
theorem runHelper (h : Helper) (hb : Body C inv.body) (ha : Body C inv.alternative) :
    C Unit (runHelper env h inv) := by
  cases h with
  | emitBlock => exact hC.emitBlock hb
  | captureBlock => exact hC.captureBlock hb
  | ofScopeData text => exact hC.ofScopeData text
  | condition positive => exact hC.runCondition hb ha positive
  | each => exact hC.runEach hb ha
  | within => exact hC.runWithin hb ha
  | verbatim => exact hC.orNothing hb
  | log => exact hC.runLog
  | lookup => exact hC.bind (hC.liftReason _) fun value => hC.writeValue value
  | size => exact hC.bind (hC.liftReason _) fun value => hC.writeValue value
  | compare c => exact hC.bind (hC.liftReason _) fun truth => hC.runTest hb ha truth
  | all => exact hC.bind (hC.liftReason _) fun truth => hC.runTest hb ha truth
  | any => exact hC.bind (hC.liftReason _) fun truth => hC.runTest hb ha truth
  | negation => exact hC.bind (hC.liftReason _) fun truth => hC.runTest hb ha truth

theorem valueOfCall (hb : Body C inv.body) (ha : Body C inv.alternative) :
    C Evaluated (valueOfCall env inv) := by
  refine hC.bind (hC.liftReason _) fun helper => ?_
  split
  · exact hC.bind (hC.liftReason _) fun value => hC.pure _
  · exact hC.look (fun _ _ => rfl) fun s => hC.bind (hC.modify fun _ _ => rfl) fun _ =>
      hC.bind (hC.capture (hC.runHelper helper hb ha)) fun text =>
        hC.bind (hC.modify fun _ _ => rfl) fun _ => hC.pure _

/-! ## Parameters -/

theorem evalReference (r : Reference) : C Evaluated (evalReference env r) :=
  hC.look (fun _ _ => rfl) fun _ => hC.bind (hC.liftReason _) fun _ => hC.pure _

mutual

theorem evalParam : (p : Param) → C Evaluated (evalParam env p)
  | .reference r => by
    rw [Evaluation.evalParam]
    exact hC.evalReference r
  | .literal v => by
    rw [Evaluation.evalParam]
    exact hC.pure _
  | .call name args hash => by
    rw [Evaluation.evalParam]
    exact hC.bind (evalParams args) fun _ => hC.bind (evalHash hash) fun _ =>
      hC.valueOfCall body_none body_none

theorem evalParams : (ps : List Param) → C (List Evaluated) (evalParams env ps)
  | [] => by
    rw [Evaluation.evalParams]
    exact hC.pure _
  | p :: ps => by
    rw [Evaluation.evalParams]
    exact hC.bind (evalParam p) fun _ => hC.bind (evalParams ps) fun _ => hC.pure _

theorem evalHash : (ps : List (String × Param)) → C (List (String × Evaluated)) (evalHash env ps)
  | [] => by
    rw [Evaluation.evalHash]
    exact hC.pure _
  | (name, p) :: ps => by
    rw [Evaluation.evalHash]
    exact hC.bind (evalParam p) fun _ => hC.bind (evalHash ps) fun _ => hC.pure _

end

theorem nameOf (p : Param) : C String (nameOf env p) := by
  cases p with
  | reference r => exact hC.pure _
  | literal v => exact hC.pure _
  | call name args hash => exact hC.bind (hC.evalParam _) fun _ => hC.pure _

/-! ## Tags -/

theorem callHelper (c : Call) (isBlock startsLine : Bool) (hb : Body C body)
    (ha : Body C alternative) : C Unit (callHelper env c isBlock startsLine body alternative) := by
  simp only [Evaluation.callHelper, invocation, bind_assoc, pure_bind]
  exact hC.bind (hC.evalParams _) fun _ => hC.bind (hC.evalHash _) fun _ =>
    hC.tracked (fun _ _ => rfl) (hC.bind (hC.liftReason _) fun helper => hC.runHelper helper hb ha)

theorem renderAlone (p : Param) : C Unit (renderAlone env p) := by
  refine hC.bind (hC.nameOf p) fun name => ite (hC.bind (hC.nameOf p) fun name => ?_)
    (hC.bind (hC.evalParam p) fun e => ?_)
  · exact hC.callHelper _ _ _ body_none body_none
  · split
    · exact hC.writeValue _
    · refine ite (hC.fail _) ?_
      split
      · exact hC.bind (hC.nameOf p) fun _ => hC.runHelper _ body_none body_none
      · exact hC.pure _

theorem runDecorator (c : Call) (t : Option Template) : C Unit (runDecorator env c t) := by
  have hinvocation : C Invocation (invocation env c none none) :=
    hC.bind (hC.evalParams _) fun _ => hC.bind (hC.evalHash _) fun _ => hC.pure _
  refine hC.bind hinvocation fun inv => ite (hC.bind (hC.liftReason _) fun e => ?_) (hC.fail _)
  split
  · exact hC.modify fun _ _ => rfl
  · exact hC.fail _
  · exact hC.fail _

theorem refuseItself (name : String) : C Unit (refuseItself name) := by
  refine hC.look (fun _ _ => rfl) fun s => ?_
  split
  · exact ite (hC.fail _) (hC.pure _)
  · exact hC.pure _

theorem captured (hb : Body C body) : C (Option String) (body.mapM Evaluation.capture) := by
  cases body with
  | none => exact hC.pure _
  | some r =>
    rw [Option.mapM_some, map_eq_pure_bind]
    exact hC.bind (hC.capture (hb r rfl)) fun _ => hC.pure _

/-- What a partial tag with a fixed name includes has the property, if entering any template has. -/
theorem renderFixed {enter : Template → Render Unit} (henter : ∀ t, C Unit (enter t))
    {c : PartialCall} {name : String} (hname : c.name = .fixed name) (hb : Body C body) :
    C Unit (Evaluation.renderPartial env enter c body) := by
  simp only [Evaluation.renderPartial, hname, pure_bind]
  refine hC.bind (hC.evalParams _) fun args => hC.bind (hC.evalHash _) fun hash =>
    hC.tracked (fun _ _ => rfl) (hC.look (fun _ _ => rfl) fun s =>
      hC.bind (hC.refuseItself name) fun _ =>
        hC.bind (hC.withContext _ (hC.bind (hC.captured hb) fun written => ite ?_ ?_)) fun _ =>
          ?_)
  · split
    · exact hC.emit _
    · exact hC.fail _
  · refine hC.look (fun _ _ => rfl) fun t => ?_
    split
    · exact hC.bind (hC.modify fun _ _ => rfl) fun _ => henter _
    · exact hC.emit _
    · exact hC.fail _
  · exact hC.modify fun _ _ => rfl

theorem renderPartial {enter : Template → Render Unit} (henter : ∀ t, C Unit (enter t))
    (c : PartialCall) (hb : Body C body) : C Unit (Evaluation.renderPartial env enter c body) := by
  cases hname : c.name with
  | fixed name => exact hC.renderFixed henter hname hb
  | computed p =>
    have hcall : Evaluation.renderPartial env enter c body = Evaluation.nameOf env p >>= fun name =>
        Evaluation.renderPartial env enter { c with name := .fixed name } body := by
      simp only [Evaluation.renderPartial, hname, pure_bind]
    rw [hcall]
    exact hC.bind (hC.nameOf p) fun name => hC.renderFixed henter rfl hb

/-! ## Templates -/

variable {enter : Template → Render Unit}

mutual

theorem renderTemplate (henter : ∀ t, C Unit (enter t)) :
    (t : Template) → C Unit (renderTemplate env enter t)
  | .mk name elements => by
    rw [Evaluation.renderTemplate]
    exact hC.bind (hC.modify fun _ _ => rfl) fun _ => renderElements henter name elements

theorem renderElements (henter : ∀ t, C Unit (enter t)) (name : Option String) :
    (elements : List (Element × Option Position)) → C Unit (renderElements env enter name elements)
  | [] => by
    rw [Evaluation.renderElements]
    exact hC.pure _
  | (element, place) :: rest => by
    rw [Evaluation.renderElements]
    exact hC.bind (hC.locate (renderElement henter element) name place) fun _ =>
      renderElements henter name rest

theorem renderElement (henter : ∀ t, C Unit (enter t)) :
    (element : Element) → C Unit (renderElement env enter element)
  | .text s => by
    rw [Evaluation.renderElement]
    exact hC.write s
  | .comment => by
    rw [Evaluation.renderElement]
    exact hC.pure _
  | .value p escaped => by
    rw [Evaluation.renderElement]
    exact hC.escapedIf escaped (hC.renderAlone p)
  | .call c escaped => by
    rw [Evaluation.renderElement]
    exact hC.escapedIf escaped (hC.callHelper c _ _ body_none body_none)
  | .block c body none startsLine => by
    rw [Evaluation.renderElement]
    exact hC.callHelper c _ _ (body_some (renderTemplate henter body)) body_none
  | .block c body (some alternative) startsLine => by
    rw [Evaluation.renderElement]
    exact hC.callHelper c _ _ (body_some (renderTemplate henter body))
      (body_some (renderTemplate henter alternative))
  | .inclusion c none => by
    rw [Evaluation.renderElement]
    exact hC.renderPartial henter c body_none
  | .inclusion c (some body) => by
    rw [Evaluation.renderElement]
    exact hC.renderPartial henter c (body_some (renderTemplate henter body))
  | .decorator c body => by
    rw [Evaluation.renderElement]
    exact hC.runDecorator c body

end

/-- **A closed predicate holds of the rendering of every template**, however deep its partials
include each other. -/
theorem renderNested (n : Nat) (t : Template) : C Unit (renderNested env n t) := by
  induction n generalizing t with
  -- Nothing is entered any more.
  | zero => exact hC.fail _
  | succ n ih => exact hC.renderTemplate ih t

end Closed

end Views.Evaluation
