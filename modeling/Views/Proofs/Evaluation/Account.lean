import Mathlib.Data.List.DropRight
import Views.Proofs.Evaluation.Frame

/-!
# Accounts of content blocks

An account of an evaluation tells what happened to the content blocks, event by event: a fragment
was captured, a body could not be rendered, a block was taken. `waiting` reads from such a log what
a block holds: the fragments captured for it since it was last taken. `Account` has a rule for each
of the two helpers, which says what the helper writes from the log alone, and rules that pass the
log along: for the smallest evaluations, which neither look at the blocks nor change them, and for
the ways in which evaluations are put together. So an account of a template goes down to each of its
calls.

What a call of a helper does is stated first, whatever evaluation makes it (`BlockLaws`). An account
is right: what it says of the result is what the evaluation gives, and if the log agreed with the
scope before, it does so after (`Account.right`).
-/

set_option autoImplicit false

namespace Views.Evaluation

/-! ## Logs -/

/-- What can happen to a content block. -/
inductive BlockEvent where
  /-- A body was rendered, and its text added as a fragment. -/
  | captured (name fragment : String)
  /-- A body could not be rendered. -/
  | failed (name : String)
  /-- The fragments were taken, and none is left. -/
  | taken (name : String)
  deriving DecidableEq

/-- The fragment that an event adds to a block. -/
def BlockEvent.fragment? (name : String) : BlockEvent → Option String
  | captured other fragment => if other = name then some fragment else none
  | _ => none

/-- The fragments captured for a block since it was last taken, oldest first. -/
def waiting (log : List BlockEvent) (name : String) : List String :=
  (log.rtakeWhile fun event => event ≠ .taken name).filterMap (BlockEvent.fragment? name)

section Waiting

variable (log : List BlockEvent) (name other : String)

theorem waiting_captured (fragment : String) :
    waiting (log ++ [.captured name fragment]) other =
      if name = other then waiting log name ++ [fragment] else waiting log other := by
  rw [waiting, List.rtakeWhile_concat_pos _ _ _ (by simp), List.filterMap_append]
  by_cases h : name = other
  · subst h
    simp [waiting, BlockEvent.fragment?]
  · simp [waiting, BlockEvent.fragment?, h]

theorem waiting_failed : waiting (log ++ [.failed name]) other = waiting log other := by
  rw [waiting, List.rtakeWhile_concat_pos _ _ _ (by simp), List.filterMap_append]
  simp [waiting, BlockEvent.fragment?]

theorem waiting_taken :
    waiting (log ++ [.taken name]) other = if name = other then [] else waiting log other := by
  by_cases h : name = other
  · subst h
    rw [waiting, List.rtakeWhile_concat_neg _ _ _ (by simp), if_pos rfl]
    rfl
  · rw [waiting, List.rtakeWhile_concat_pos _ _ _ (by simpa using h), List.filterMap_append,
      if_neg h]
    simp [waiting, BlockEvent.fragment?]

end Waiting

/-! ## States and logs -/

/-- A state with other content blocks. -/
def State.withBlocks (s : State) (blocks : Table (List String)) : State :=
  { s with scope := { s.scope with blocks } }

/-- The log tells what the blocks of the scope hold. -/
def Agrees (log : List BlockEvent) (s : State) : Prop :=
  ∀ name, s.scope.fragments name = waiting log name

variable {α β : Type} {log log' log₁ log₂ : List BlockEvent}

theorem Agrees.of_blocks {s t : State} (h : Agrees log s)
    (heq : t.scope.blocks = s.scope.blocks) : Agrees log t := by
  intro name
  rw [← h name, Scope.fragments, Scope.fragments, heq]

theorem Agrees.joined {s : State} (h : Agrees log s) (name : String) :
    s.scope.joined name = "\n".intercalate (waiting log name) := by
  rw [Scope.joined, h name]

theorem Agrees.captured {s t : State} {name fragment : String} (h : Agrees log s)
    (heq : t.scope = s.scope.append name fragment) :
    Agrees (log ++ [.captured name fragment]) t := by
  intro other
  rw [heq, Scope.fragments_append, waiting_captured, h name, h other]

theorem Agrees.failed {s : State} (h : Agrees log s) (name : String) :
    Agrees (log ++ [.failed name]) s := by
  intro other
  rw [waiting_failed, h other]

theorem Agrees.taken {s t : State} {name : String} (h : Agrees log s)
    (heq : t.scope = (s.scope.consume name).2) : Agrees (log ++ [.taken name]) t := by
  intro other
  rw [heq, Scope.fragments_consume, waiting_taken, h other]

/-! ## What a call does -/

/-- The state after a block was taken. -/
def State.taking (s : State) (name : String) : State :=
  { s with scope := (s.scope.consume name).2 }

variable {env : Environment}

theorem locate_apply (template : Option String) (place : Option Position) (r : Render α)
    (s : State) :
    locate template place r s = match r s with
      | (.ok a, t) => (.ok a, t)
      | (.error err, t) => (.error { err with
          place := err.place <|> place, template := err.template <|> template }, t) := by
  unfold locate
  cases r s with
  | mk x t => cases x <;> rfl

theorem capture_apply (r : Render Unit) (s : State) :
    capture r s = match r { s with out := "" } with
      | (.ok (), t) => (.ok t.out, { t with out := s.out })
      | (.error err, t) => (.error err, t) := by
  show ((r >>= fun _ => modifyGet fun t => (t.out, { t with out := s.out }) : Render String)
    { s with out := "" }) = _
  rw [Frame.bind_apply]
  cases r { s with out := "" } with
  | mk x t => cases x <;> rfl

theorem captureBlock_apply {inv : Invocation} {name : String} (hname : blockName inv = .ok name)
    (s : State) :
    runHelper env .captureBlock inv s = match orNothing inv.body { s with out := "" } with
      | (.ok (), t) => (.ok (), { t with out := s.out, scope := t.scope.append name t.out })
      | (.error err, t) => (.error err, t) := by
  show (liftReason (blockName inv) >>= fun name => capture (orNothing inv.body) >>= fun fragment =>
    modify fun s => { s with scope := s.scope.append name fragment } : Render Unit) s = _
  rw [hname]
  show (capture (orNothing inv.body) >>= fun fragment =>
    modify fun s => { s with scope := s.scope.append name fragment } : Render Unit) s = _
  rw [Frame.bind_apply, capture_apply]
  cases orNothing inv.body { s with out := "" } with
  | mk x t => cases x <;> rfl

theorem emitBlock_apply {inv : Invocation} {name : String} (hname : blockName inv = .ok name)
    (s : State) :
    runHelper env .emitBlock inv s = match s.scope.joined name == "", inv.body with
      | true, some body => body (s.taking name)
      | _, _ => (.ok (), { s.taking name with out := s.out ++ s.scope.joined name }) := by
  show runEmitBlock inv s = _
  unfold runEmitBlock
  rw [hname, Frame.bind_apply]
  show (match s.scope.joined name == "", inv.body with
    | true, some body => body
    | _, _ => emit (s.scope.joined name)) (s.taking name) = _
  cases s.scope.joined name == "" <;> cases inv.body <;> rfl

/-- What a call of one of the two helpers does, wherever it is made. The log is one that agrees with
the state of the call, or with the one that its body leaves. -/
structure BlockLaws (env : Environment) : Prop where
  /-- A body that is rendered writes nothing, and its text is one more fragment of its block. -/
  captured {log : List BlockEvent} {inv : Invocation} {name : String} {s t : State}
    (hname : blockName inv = .ok name)
    (hbody : orNothing inv.body { s with out := "" } = (.ok (), t)) (ht : Agrees log t) :
    runHelper env .captureBlock inv s =
        (.ok (), { t with out := s.out, scope := t.scope.append name t.out }) ∧
      Agrees (log ++ [.captured name t.out])
        { t with out := s.out, scope := t.scope.append name t.out }
  /-- A body that fails ends the call where it failed: no fragment is added. -/
  failed {inv : Invocation} {name : String} {s t : State} {err : RenderError}
    (hname : blockName inv = .ok name)
    (hbody : orNothing inv.body { s with out := "" } = (.error err, t)) :
    runHelper env .captureBlock inv s = (.error err, t)
  /-- The waiting fragments are written as they are, on lines of their own, and none is left. -/
  emitted {log : List BlockEvent} {inv : Invocation} {name : String} {s : State}
    (hname : blockName inv = .ok name) (hs : Agrees log s)
    (h : "\n".intercalate (waiting log name) ≠ "" ∨ inv.body = none) :
    runHelper env .emitBlock inv s =
        (.ok (), { s.taking name with out := s.out ++ "\n".intercalate (waiting log name) }) ∧
      Agrees (log ++ [.taken name])
        { s.taking name with out := s.out ++ "\n".intercalate (waiting log name) }
  /-- If no text is waiting, the body is rendered in place of the call. -/
  replaced {log : List BlockEvent} {inv : Invocation} {name : String} {body : Render Unit}
    {s : State} (hname : blockName inv = .ok name) (hs : Agrees log s)
    (hempty : "\n".intercalate (waiting log name) = "") (hbody : inv.body = some body) :
    runHelper env .emitBlock inv s = body (s.taking name) ∧
      Agrees (log ++ [.taken name]) (s.taking name)

theorem blockLaws (env : Environment) : BlockLaws env where
  captured hname hbody ht := by
    refine ⟨?_, ht.captured rfl⟩
    rw [captureBlock_apply hname, hbody]
  failed hname hbody := by
    rw [captureBlock_apply hname, hbody]
  emitted {log inv name s} hname hs hor := by
    refine ⟨?_, hs.taken rfl⟩
    rw [emitBlock_apply hname, hs.joined]
    rcases hor with hne | hnone
    · rw [beq_eq_false_iff_ne.2 hne]
    · rw [hnone]
      cases "\n".intercalate (waiting log name) == "" <;> rfl
  replaced hname hs hempty hbody := by
    refine ⟨?_, hs.taken rfl⟩
    rw [emitBlock_apply hname, hs.joined, hempty, hbody]
    rfl

/-! ## Accounts -/

/-- `Account env log r s log' x`: the evaluation `r` goes from the state `s` to the result and the
state `x`, and what it does to the content blocks extends `log` to `log'`. -/
inductive Account (env : Environment) : {α : Type} → List BlockEvent → Render α → State →
    List BlockEvent → Except RenderError α × State → Prop
  | value {α : Type} {log : List BlockEvent} {s : State} (a : α) :
      Account env log (pure a) s log (.ok a, s)
  | error {α : Type} {log : List BlockEvent} {s : State} (reason : Reason) :
      Account env log (fail reason : Render α) s log (.error ⟨reason, none, none⟩, s)
  /-- A step on the parts of the state other than the blocks. -/
  | step {α : Type} {log : List BlockEvent} {f : State → α × State} {s : State}
      (hf : ∀ s blocks, f (s.withBlocks blocks) = ((f s).1, (f s).2.withBlocks blocks)) :
      Account env log (modifyGet f) s log (.ok (f s).1, (f s).2)
  /-- A look at the parts of the state other than the blocks. -/
  | look {α : Type} {log log' : List BlockEvent} {f : State → Render α} {s : State}
      {x : Except RenderError α × State} (hf : ∀ s blocks, f (s.withBlocks blocks) = f s)
      (h : Account env log (f s) s log' x) : Account env log (get >>= f) s log' x
  /-- One evaluation after the other. -/
  | bind {α β : Type} {log log₁ log₂ : List BlockEvent} {r : Render α} {f : α → Render β}
      {s t : State} {a : α} {x : Except RenderError β × State}
      (h : Account env log r s log₁ (.ok a, t)) (hf : Account env log₁ (f a) t log₂ x) :
      Account env log (r >>= f) s log₂ x
  /-- An error ends the evaluation. -/
  | stop {α β : Type} {log log' : List BlockEvent} {r : Render α} {f : α → Render β}
      {s t : State} {err : RenderError} (h : Account env log r s log' (.error err, t)) :
      Account env log (r >>= f) s log' (.error err, t)
  | located {α : Type} {log log' : List BlockEvent} {r : Render α} {s t : State} {a : α}
      {template : Option String} {place : Option Position}
      (h : Account env log r s log' (.ok a, t)) :
      Account env log (locate template place r) s log' (.ok a, t)
  | misplaced {α : Type} {log log' : List BlockEvent} {r : Render α} {s t : State}
      {err : RenderError} {template : Option String} {place : Option Position}
      (h : Account env log r s log' (.error err, t)) :
      Account env log (locate template place r) s log'
        (.error { err with place := err.place <|> place, template := err.template <|> template }, t)
  /-- The body was rendered on its own: its text is a fragment, and the output is as before. -/
  | captured {log log' : List BlockEvent} {inv : Invocation} {name : String} {s t : State}
      (hname : blockName inv = .ok name)
      (h : Account env log (orNothing inv.body) { s with out := "" } log' (.ok (), t)) :
      Account env log (runHelper env .captureBlock inv) s (log' ++ [.captured name t.out])
        (.ok (), { t with out := s.out, scope := t.scope.append name t.out })
  /-- The body could not be rendered: there is no fragment, and the evaluation ends. -/
  | failed {log log' : List BlockEvent} {inv : Invocation} {name : String} {s t : State}
      {err : RenderError} (hname : blockName inv = .ok name)
      (h : Account env log (orNothing inv.body) { s with out := "" } log' (.error err, t)) :
      Account env log (runHelper env .captureBlock inv) s (log' ++ [.failed name]) (.error err, t)
  /-- The waiting fragments are written as they are, on lines of their own. -/
  | emitted {log : List BlockEvent} {inv : Invocation} {name : String} {s : State}
      (hname : blockName inv = .ok name)
      (h : "\n".intercalate (waiting log name) ≠ "" ∨ inv.body = none) :
      Account env log (runHelper env .emitBlock inv) s (log ++ [.taken name])
        (.ok (), { s.taking name with out := s.out ++ "\n".intercalate (waiting log name) })
  /-- No text is waiting, and the body is rendered instead. -/
  | replaced {log log' : List BlockEvent} {inv : Invocation} {name : String} {body : Render Unit}
      {s : State} {x : Except RenderError Unit × State} (hname : blockName inv = .ok name)
      (hempty : "\n".intercalate (waiting log name) = "") (hbody : inv.body = some body)
      (h : Account env (log ++ [.taken name]) body (s.taking name) log' x) :
      Account env log (runHelper env .emitBlock inv) s log' x

namespace Account

/-! ## Accounts are right -/

/-- **An account is right**: the evaluation gives what it says, and the log agrees with the scope
that is left. -/
theorem right {r : Render α} {s : State} {x : Except RenderError α × State}
    (h : Account env log r s log' x) (hs : Agrees log s) : r s = x ∧ Agrees log' x.2 := by
  induction h with
  | value | error => exact ⟨rfl, hs⟩
  | @step _ _ f s hf =>
    exact ⟨rfl, hs.of_blocks (congrArg (fun x => x.2.scope.blocks) (hf s s.scope.blocks))⟩
  | look _ _ ih => exact ih hs
  | bind _ _ ih ihf =>
    obtain ⟨hr, ht⟩ := ih hs
    obtain ⟨hf, hx⟩ := ihf ht
    refine ⟨?_, hx⟩
    rw [Frame.bind_apply, hr]
    exact hf
  | stop _ ih =>
    obtain ⟨hr, ht⟩ := ih hs
    refine ⟨?_, ht⟩
    rw [Frame.bind_apply, hr]
  | located _ ih =>
    obtain ⟨hr, ht⟩ := ih hs
    refine ⟨?_, ht⟩
    rw [locate_apply, hr]
  | misplaced _ ih =>
    obtain ⟨hr, ht⟩ := ih hs
    refine ⟨?_, ht⟩
    rw [locate_apply, hr]
  | captured hname _ ih =>
    obtain ⟨hr, ht⟩ := ih (hs.of_blocks rfl)
    exact (blockLaws env).captured hname hr ht
  | failed hname _ ih =>
    obtain ⟨hr, ht⟩ := ih (hs.of_blocks rfl)
    exact ⟨(blockLaws env).failed hname hr, ht.failed _⟩
  | emitted hname hor => exact (blockLaws env).emitted hname hs hor
  | replaced hname hempty hbody _ ih =>
    -- The body is rendered when the block is empty already.
    obtain ⟨hcall, ht⟩ := (blockLaws env).replaced hname hs hempty hbody
    obtain ⟨hr, hx⟩ := ih ht
    exact ⟨hcall.trans hr, hx⟩

end Account

end Views.Evaluation
