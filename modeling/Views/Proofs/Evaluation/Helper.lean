import Views.Proofs.Evaluation.Frame

/-!
# Comparing calls of helpers

No helper looks at a registered template, so a call on the one registry of a frame and on the other
stay in step if the bodies of the call do (`Twin.runHelper`).
-/

set_option autoImplicit false

namespace Views.Evaluation.Frame

variable {F : Frame}

/-- Calls that differ at most in how their bodies are rendered, which stay in step. -/
inductive Calls (F : Frame) : Invocation → Invocation → Prop
  | mk {name : String} {args : List Evaluated} {hash : Table Evaluated} {params : List String}
      {body body' alternative alternative' : Option (Render Unit)}
      (hb : Option.Rel (F.Twin Eq) body body')
      (ha : Option.Rel (F.Twin Eq) alternative alternative') :
      Calls F ⟨name, args, hash, params, body, alternative⟩
        ⟨name, args, hash, params, body', alternative'⟩

variable {inv inv' : Invocation}

theorem required_eq (e : Option Evaluated) (reason : Reason) :
    required F.env' e reason = required F.env e reason := by
  unfold required
  rw [F.like.strict]

theorem Calls.truthOf? (h : F.Calls inv inv') (helper : Helper) :
    truthOf? F.env' helper inv' = truthOf? F.env helper inv := by
  cases h
  cases helper <;> simp only [Evaluation.truthOf?, required_eq]

theorem Calls.valueOf? (h : F.Calls inv inv') (helper : Helper) :
    valueOf? F.env' helper inv' = valueOf? F.env helper inv := by
  have ht := h.truthOf? helper
  cases h
  cases helper <;>
    simp only [Evaluation.valueOf?, Invocation.arg, required_eq, ht, F.like.strict]

theorem findHelper_eq (name fallback : String) :
    findHelper F.env' name fallback = findHelper F.env name fallback := by
  unfold findHelper
  rw [F.like.helpers]

theorem isSome_eq {α : Type} {R : α → α → Prop} {a a' : Option α} (h : Option.Rel R a a') :
    a.isSome = a'.isSome := by
  cases h <;> rfl

namespace Twin

theorem orNothing {r r' : Option (Render Unit)} (h : Option.Rel (F.Twin Eq) r r') :
    F.Twin Eq (orNothing r) (orNothing r') := by
  cases h with
  | some h => exact h
  | none => exact pure rfl

theorem otherwise (h : F.Calls inv inv') (e : Evaluated) :
    F.Twin Eq (otherwise F.env inv e) (otherwise F.env' inv' e) := by
  obtain ⟨-, ha⟩ := h
  unfold Evaluation.otherwise
  rw [F.like.strict]
  cases ha with
  | some h => exact h
  | none =>
    exact ite (fail _) (pure rfl)

/-- The steps of a loop share one context, with the partials defined in the steps before. -/
theorem loop {body body' : Render Unit} (h : F.Twin Eq body body') (steps : List Context) :
    F.Twin Eq (loop F.env steps body) (loop F.env' steps body') := by
  unfold Evaluation.loop
  rw [F.root]
  refine withContext (tame_of_nil rfl) (forM (fun step => bind_eq (modify fun s current hn ht => ?_)
    fun _ => h) steps)
  have hs : F.Similar s { s with current } := ⟨rfl, hn, ht⟩
  obtain ⟨hc, htame⟩ := hs.context
  refine ⟨?_, hn, List.forall_mem_cons.2 ⟨htame, fun c hm => ht c (List.mem_of_mem_tail hm)⟩⟩
  rw [hc]

theorem runEach (h : F.Calls inv inv') : F.Twin Eq (runEach F.env inv) (runEach F.env' inv') := by
  have hother := otherwise h
  obtain ⟨hb, ha⟩ := h
  refine bind_eq (liftReason _) fun e => ?_
  cases hb with
  | none => exact pure rfl
  | some hb =>
    have hsome := isSome_eq ha
    dsimp only
    rw [← hsome]
    cases e.value with
    | array items => exact ite (hother e) (loop hb _)
    | object fields => exact ite (hother e) (loop hb _)
    | _ => exact hother e

theorem runWithin (h : F.Calls inv inv') :
    F.Twin Eq (runWithin F.env inv) (runWithin F.env' inv') := by
  have hother := otherwise h
  obtain ⟨hb, -⟩ := h
  refine bind_eq (liftReason _) fun e => ite (get_bind fun s current hn ht => ?_) (hother e)
  have hs : F.Similar s { s with current } := ⟨rfl, hn, ht⟩
  obtain ⟨hc, -⟩ := hs.context
  rw [hc]
  exact withContext (tame_of_nil rfl) (orNothing hb)

theorem runCondition (h : F.Calls inv inv') (positive : Bool) :
    F.Twin Eq (runCondition positive inv) (runCondition positive inv') := by
  obtain ⟨hb, ha⟩ := h
  exact bind_eq (liftReason _) fun _ => ite (orNothing hb) (orNothing ha)

theorem runLog (h : F.Calls inv inv') : F.Twin Eq (runLog inv) (runLog inv') := by
  obtain ⟨-, -⟩ := h
  unfold Evaluation.runLog
  dsimp only
  split
  · exact ite (pure rfl) (fail _)
  · exact pure rfl

theorem runEmitBlock (h : F.Calls inv inv') : F.Twin Eq (runEmitBlock inv) (runEmitBlock inv') := by
  obtain ⟨hb, -⟩ := h
  refine bind_eq (liftReason _) fun name => bind_eq (modifyGet fun s current hc ht => ?_)
    fun content => ?_
  · exact ⟨rfl, rfl, hc, ht⟩
  · cases content == "" with
    | false => exact emit _
    | true =>
      cases hb with
      | none => exact emit _
      | some hb => exact hb

theorem runCaptureBlock (h : F.Calls inv inv') :
    F.Twin Eq (runCaptureBlock inv) (runCaptureBlock inv') := by
  obtain ⟨hb, -⟩ := h
  exact bind_eq (liftReason _) fun _ => bind_eq (capture (orNothing hb)) fun _ =>
    modify fun _ _ hc ht => ⟨rfl, hc, ht⟩

theorem runTest (h : F.Calls inv inv') (truth : Bool) :
    F.Twin Eq (runTest inv truth) (runTest inv' truth) := by
  obtain ⟨hb, ha⟩ := h
  cases hb with
  | none => exact emit _
  | some hb => exact ite hb (orNothing ha)

/-- **Calls of a helper stay in step.** -/
theorem runHelper (helper : Helper) (h : F.Calls inv inv') :
    F.Twin Eq (runHelper F.env helper inv) (runHelper F.env' helper inv') := by
  unfold Evaluation.runHelper
  rw [h.truthOf?, h.valueOf?]
  cases Evaluation.truthOf? F.env helper inv with
  | some truth => exact bind_eq (liftReason _) fun truth => runTest h truth
  | none =>
    cases Evaluation.valueOf? F.env helper inv with
    | some value => exact bind_eq (liftReason _) fun value => writeValue value
    | none =>
      cases helper with
      | condition positive => exact runCondition h positive
      | each => exact runEach h
      | within => exact runWithin h
      | verbatim => obtain ⟨hb, -⟩ := h; exact orNothing hb
      | log => exact runLog h
      | emitBlock => exact runEmitBlock h
      | captureBlock => exact runCaptureBlock h
      | ofScopeData text => exact get_bind fun _ _ _ _ => emit _
      | _ => exact pure rfl

theorem valueOfCall (h : F.Calls inv inv') :
    F.Twin Eq (valueOfCall F.env inv) (valueOfCall F.env' inv') := by
  have hname : inv'.name = inv.name := by obtain ⟨-, -⟩ := h; rfl
  unfold Evaluation.valueOfCall
  rw [hname, findHelper_eq]
  refine bind_eq (liftReason _) fun helper => ?_
  rw [h.valueOf?]
  cases Evaluation.valueOf? F.env helper inv with
  | some value => exact bind_eq (liftReason _) fun value => pure rfl
  | none =>
    refine get_bind fun s current _ _ => bind_eq (modify fun _ _ hc ht => ⟨rfl, hc, ht⟩) fun _ =>
      bind_eq (capture (runHelper helper h)) fun text => bind_eq ?_ fun _ => pure rfl
    exact modify fun _ _ hc ht => ⟨rfl, hc, ht⟩

end Twin

end Views.Evaluation.Frame
