import Views.Proofs.Evaluation.Account
import Views.Proofs.Evaluation.Traverse

/-!
# Every rendering has an account

An evaluation is recounted if it has an account from every state and every log that agrees with it.
The two helpers for content blocks are recounted by their own rules (`Recounted.runCaptureBlock`,
`Recounted.runEmitBlock`), and everything else is put together from what leaves the blocks alone. So
being recounted is closed, and holds of every template (`Recounted.renderNested`).
-/

set_option autoImplicit false

namespace Views.Evaluation

/-- An evaluation with an account from wherever it starts. -/
def Recounted (env : Environment) (α : Type) (r : Render α) : Prop :=
  ∀ log s, Agrees log s → ∃ log', Account env log r s log' (r s)

namespace Recounted

variable {env : Environment} {α β : Type} {inv : Invocation}

/-! ## Putting evaluations together -/

theorem pure (a : α) : Recounted env α (pure a) := fun log _ _ => ⟨log, .value a⟩

theorem fail (reason : Reason) : Recounted env α (fail reason) :=
  fun log _ _ => ⟨log, .error reason⟩

/-- What is kept for every scope is kept for every content of the blocks. -/
theorem modifyGet {f : State → α × State}
    (h : ∀ s scope, f (s.withScope scope) = ((f s).1, (f s).2.withScope scope)) :
    Recounted env α (modifyGet f) := by
  refine fun log _ _ => ⟨log, .step fun s blocks => ?_⟩
  have hscope : (f s).2.scope = s.scope := congrArg (fun x => State.scope x.2) (h s s.scope)
  show f (s.withScope { s.scope with blocks }) = _
  rw [h, ← hscope]
  rfl

theorem modify {f : State → State}
    (h : ∀ s scope, f (s.withScope scope) = (f s).withScope scope) :
    Recounted env PUnit (modify f) :=
  modifyGet (f := fun s => ((), f s)) fun s scope => congrArg (Prod.mk ()) (h s scope)

theorem bind {r : Render α} {f : α → Render β} (h : Recounted env α r)
    (hf : ∀ a, Recounted env β (f a)) : Recounted env β (r >>= f) := by
  intro log s hs
  obtain ⟨log₁, h₁⟩ := h log s hs
  have hagrees := (h₁.right hs).2
  rw [Frame.bind_apply]
  cases hr : r s with
  | mk x t =>
    rw [hr] at h₁ hagrees
    cases x with
    | ok a =>
      obtain ⟨log₂, h₂⟩ := hf a log₁ t hagrees
      exact ⟨log₂, .bind h₁ h₂⟩
    | error err => exact ⟨log₁, .stop h₁⟩

/-- Goes on after a look at the parts of the state other than the blocks. -/
theorem look {f : State → Render α} (hf : ∀ s blocks, f (s.withBlocks blocks) = f s)
    (h : ∀ s, Recounted env α (f s)) : Recounted env α (get >>= f) := by
  intro log s hs
  obtain ⟨log', h'⟩ := h s log s hs
  exact ⟨log', .look hf h'⟩

theorem locate {r : Render α} (h : Recounted env α r) (template : Option String)
    (place : Option Position) : Recounted env α (locate template place r) := by
  intro log s hs
  obtain ⟨log', h'⟩ := h log s hs
  rw [locate_apply]
  cases hr : r s with
  | mk x t =>
    rw [hr] at h'
    cases x with
    | ok a => exact ⟨log', .located h'⟩
    | error err => exact ⟨log', .misplaced h'⟩

/-! ## The helpers for content blocks -/

/-- A call without the name of a block ends there. -/
theorem of_blockName_error {reason : Reason} {f : String → Render Unit}
    (h : blockName inv = .error reason) :
    Recounted env Unit (Evaluation.liftReason (blockName inv) >>= f) := by
  rw [h]
  exact fail reason

theorem orNothing {body : Option (Render Unit)} (h : Body (Recounted env) body) :
    Recounted env Unit (orNothing body) := by
  cases body with
  | none => exact pure ()
  | some r => exact h r rfl

theorem runCaptureBlock (hb : Body (Recounted env) inv.body) :
    Recounted env Unit (runHelper env .captureBlock inv) := by
  cases hname : blockName inv with
  | error reason => exact of_blockName_error hname
  | ok name =>
    intro log s hs
    obtain ⟨log', h⟩ := orNothing hb log { s with out := "" } (hs.of_blocks rfl)
    rw [captureBlock_apply hname]
    cases hr : Evaluation.orNothing inv.body { s with out := "" } with
    | mk x t =>
      rw [hr] at h
      cases x with
      | ok => exact ⟨_, .captured hname h⟩
      | error err => exact ⟨_, .failed hname h⟩

theorem runEmitBlock (hb : Body (Recounted env) inv.body) :
    Recounted env Unit (runHelper env .emitBlock inv) := by
  cases hname : blockName inv with
  | error reason => exact of_blockName_error hname
  | ok name =>
    intro log s hs
    rw [emitBlock_apply hname, hs.joined]
    cases hempty : "\n".intercalate (waiting log name) == "" with
    | false => exact ⟨_, .emitted hname (.inl (beq_eq_false_iff_ne.1 hempty))⟩
    | true =>
      cases hbody : inv.body with
      | none => exact ⟨_, .emitted hname (.inr hbody)⟩
      | some body =>
        obtain ⟨log', h⟩ := hb body hbody (log ++ [.taken name]) (s.taking name) (hs.taken rfl)
        exact ⟨log', .replaced hname (beq_iff_eq.1 hempty) hbody h⟩

/-! ## Templates -/

/-- **Being recounted is closed.** -/
theorem closed : Closed env (Recounted env) where
  pure := pure
  fail := fail
  bind := bind
  look hf h := look (fun s blocks => hf s { s.scope with blocks }) h
  modify := modify
  modifyGet := modifyGet
  locate := locate
  captureBlock := runCaptureBlock
  emitBlock := runEmitBlock
  ofScopeData _ := look (fun _ _ => rfl) fun _ => modify fun _ _ => rfl

/-- A template is recounted, however deep its partials include each other. -/
theorem renderNested (n : Nat) (t : Template) : Recounted env Unit (renderNested env n t) :=
  closed.renderNested n t

end Recounted

end Views.Evaluation
