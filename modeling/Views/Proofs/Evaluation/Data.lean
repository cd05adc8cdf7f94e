import Views.Compiler
import Views.Proofs.Evaluation.Account
import Views.Proofs.Evaluation.Traverse

/-!
# The data of the scope

Rendering changes the content blocks of the scope, and never the data that helpers see in it
(`Registry.data_execute`).
-/

set_option autoImplicit false

namespace Views

namespace Evaluation

/-- An evaluation that leaves the data of the scope as it is, also if it fails. -/
def KeepsData (α : Type) (r : Render α) : Prop := ∀ s, (r s).2.scope.data = s.scope.data

namespace KeepsData

variable {α β : Type} {env : Environment} {inv : Invocation}

theorem bind {r : Render α} {f : α → Render β} (h : KeepsData α r) (hf : ∀ a, KeepsData β (f a)) :
    KeepsData β (r >>= f) := by
  intro s
  have hr := h s
  rw [Frame.bind_apply]
  cases hx : r s with
  | mk x t =>
    rw [hx] at hr
    cases x with
    | ok a => exact (hf a t).trans hr
    | error err => exact hr

theorem modify {f : State → State} (h : ∀ s, (f s).scope.data = s.scope.data) :
    KeepsData PUnit (modify f) := h

theorem modifyGet {f : State → α × State} (h : ∀ s, (f s).2.scope.data = s.scope.data) :
    KeepsData α (modifyGet f) := h

theorem pure (a : α) : KeepsData α (pure a) := fun _ => rfl

theorem fail (reason : Reason) : KeepsData α (fail reason) := fun _ => rfl

theorem liftReason (x : Except Reason α) : KeepsData α (liftReason x) := by
  cases x with
  | ok a => exact pure a
  | error reason => exact fail reason

theorem locate {r : Render α} (h : KeepsData α r) (template : Option String)
    (place : Option Position) : KeepsData α (locate template place r) := by
  intro s
  have hr := h s
  rw [locate_apply]
  cases hx : r s with
  | mk x t =>
    rw [hx] at hr
    cases x with
    | ok a => exact hr
    | error err => exact hr

theorem orNothing {body : Option (Render Unit)} (h : Body KeepsData body) :
    KeepsData Unit (orNothing body) := by
  cases body with
  | none => exact pure _
  | some r => exact h r rfl

theorem captureBlock (hb : Body KeepsData inv.body) :
    KeepsData Unit (runHelper env .captureBlock inv) := by
  refine bind (liftReason _) fun name => bind ?_ fun fragment => modify fun s => ?_
  · exact bind (modifyGet fun _ => rfl) fun _ =>
      bind (orNothing hb) fun _ => modifyGet fun _ => rfl
  · exact Scope.data_append s.scope name fragment

theorem emitBlock (hb : Body KeepsData inv.body) :
    KeepsData Unit (runHelper env .emitBlock inv) := by
  refine bind (liftReason _) fun name =>
    bind (modifyGet fun s => Scope.data_consume s.scope name) fun content => ?_
  split
  · exact hb _ (by assumption)
  · exact modify fun _ => rfl

/-- **Leaving the data as it is is closed.** -/
theorem closed : Closed env KeepsData where
  pure := pure
  fail := fail
  bind := bind
  look _ h s := h s s
  modify h := modify fun s => congrArg (fun t => t.scope.data) (h s s.scope)
  modifyGet h := modifyGet fun s => congrArg (fun x => x.2.scope.data) (h s s.scope)
  locate := locate
  captureBlock := captureBlock
  emitBlock := emitBlock
  ofScopeData _ _ := rfl

end KeepsData

end Evaluation

open Evaluation

/-- **Executing a template keeps the data of the scope.** -/
theorem Registry.data_execute (r : Registry) (t : Compiled) (locals : Value) (scope : Scope) :
    (r.execute t locals scope).2.data = scope.data := by
  show (r.render t.key locals scope).2.data = scope.data
  unfold Registry.render
  cases r.templates.get? t.key with
  | none => rfl
  | some template =>
    exact KeepsData.closed.renderNested maxNesting template (State.start scope locals)

end Views
