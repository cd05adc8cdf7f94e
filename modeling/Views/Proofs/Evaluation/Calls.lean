import Views.Proofs.Evaluation.Recount

/-!
# Calls in an evaluation

`Reached env call log' t log r s` says that the evaluation `r`, started in the state `s` with a log,
comes to the evaluation `call` in the state `t` when its log is `log'`. A log agrees wherever an
evaluation comes to, and what fails there is the end of the whole (`Reached.error`). A template
comes to its elements from left to right (`Reached.element`), and a tag with the name of a helper is
a call of that helper (`Reached.tag`). Every event of an account was made by a call
(`Account.made`).
-/

set_option autoImplicit false

namespace Views.Evaluation

/-- The evaluation `r` comes to the evaluation `call`. -/
inductive Reached (env : Environment) (call : Render Unit) (log' : List BlockEvent) (t : State) :
    {α : Type} → List BlockEvent → Render α → State → Prop
  | here : Reached env call log' t log' call t
  /-- After a look at the state. -/
  | look {α : Type} {log : List BlockEvent} {f : State → Render α} {s : State}
      (h : Reached env call log' t log (f s) s) : Reached env call log' t log (get >>= f) s
  /-- In the first of two evaluations. -/
  | first {α β : Type} {log : List BlockEvent} {r : Render α} {f : α → Render β} {s : State}
      (h : Reached env call log' t log r s) : Reached env call log' t log (r >>= f) s
  /-- In the second, when the first has given a value. -/
  | next {α β : Type} {log log₁ : List BlockEvent} {r : Render α} {f : α → Render β}
      {s u : State} {a : α} (hr : Account env log r s log₁ (.ok a, u))
      (h : Reached env call log' t log₁ (f a) u) : Reached env call log' t log (r >>= f) s
  | located {α : Type} {log : List BlockEvent} {r : Render α} {s : State}
      {template : Option String} {place : Option Position}
      (h : Reached env call log' t log r s) :
      Reached env call log' t log (locate template place r) s
  /-- In a body that is captured. -/
  | body {log : List BlockEvent} {inv : Invocation} {name : String} {s : State}
      (hname : blockName inv = .ok name)
      (h : Reached env call log' t log (orNothing inv.body) { s with out := "" }) :
      Reached env call log' t log (runHelper env .captureBlock inv) s
  /-- In a body that is rendered in place of an empty block. -/
  | replacement {log : List BlockEvent} {inv : Invocation} {name : String} {body : Render Unit}
      {s : State} (hname : blockName inv = .ok name)
      (hempty : "\n".intercalate (waiting log name) = "") (hbody : inv.body = some body)
      (h : Reached env call log' t (log ++ [.taken name]) body (s.taking name)) :
      Reached env call log' t log (runHelper env .emitBlock inv) s

namespace Reached

variable {env : Environment} {α β : Type} {call call' : Render Unit}
  {log log' log₁ : List BlockEvent} {r : Render α} {s t u : State}

/-- **What fails where an evaluation comes to is the end of it**, with the state that it leaves. -/
theorem error (h : Reached env call log' t log r s) (hs : Agrees log s) {err : RenderError}
    (hcall : call t = (.error err, u)) : ∃ err', r s = (.error err', u) := by
  induction h with
  | here => exact ⟨err, hcall⟩
  | look _ ih => exact ih hs
  | first _ ih =>
    obtain ⟨err', hr⟩ := ih hs
    exact ⟨err', by rw [Frame.bind_apply, hr]⟩
  | next hr _ ih =>
    obtain ⟨hr, hu⟩ := hr.right hs
    obtain ⟨err', hf⟩ := ih hu
    exact ⟨err', by rw [Frame.bind_apply, hr]; exact hf⟩
  | located _ ih =>
    obtain ⟨err', hr⟩ := ih hs
    exact ⟨_, by rw [locate_apply, hr]⟩
  | body hname _ ih =>
    obtain ⟨err', hr⟩ := ih (hs.of_blocks rfl)
    exact ⟨err', (blockLaws env).failed hname hr⟩
  | replacement hname hempty hbody _ ih =>
    obtain ⟨hr, ht⟩ := (blockLaws env).replaced hname hs hempty hbody
    obtain ⟨err', hx⟩ := ih ht
    exact ⟨err', hr.trans hx⟩

theorem trans {log₂ : List BlockEvent} (h : Reached env call log₁ t log r s)
    (h' : Reached env call' log₂ u log₁ call t) : Reached env call' log₂ u log r s := by
  induction h with
  | here => exact h'
  | look _ ih => exact .look ih
  | first _ ih => exact .first ih
  | next hr _ ih => exact .next hr ih
  | located _ ih => exact .located ih
  | body hname _ ih => exact .body hname ih
  | replacement hname hempty hbody _ ih => exact .replacement hname hempty hbody ih

end Reached

/-! ## Elements and tags -/

/-- A tag that can call a helper, with its body and its alternative. -/
structure Tag where
  call : Call
  body : Option Template
  alternative : Option Template
  escaped : Bool
  startsLine : Bool

/-- The tag of an element, if it is one that can call a helper. -/
def tag? : Element → Option Tag
  | .call c escaped => some ⟨c, none, none, escaped, false⟩
  | .block c body alternative startsLine => some ⟨c, some body, alternative, true, startsLine⟩
  | _ => none

namespace Tag

/-- The call of a tag with evaluated arguments. -/
def invocation (tag : Tag) (env : Environment) (enter : Template → Render Unit)
    (args : List Evaluated) (hash : Table Evaluated) : Invocation :=
  ⟨tag.call.name, args, hash, tag.call.blockParams, tag.body.map (renderTemplate env enter),
    tag.alternative.map (renderTemplate env enter)⟩

/-- The state in which the arguments of a tag are evaluated. -/
def opened (tag : Tag) (s : State) : State := { s with escapeOff := s.escapeOff || !tag.escaped }

/-- The state in which the helper of a tag is called, after its arguments. -/
def entered (tag : Tag) (s : State) : State :=
  { s with indentNext := s.indentNext || (tag.startsLine && s.lineEnded), produced := false }

end Tag

namespace Reached

variable {env : Environment} {log log₁ log₂ : List BlockEvent} {s t u : State}
  {enter : Template → Render Unit}

/-- The rendering of a template comes to that of its elements. -/
theorem template (name : Option String) (elements : List (Element × Option Position)) :
    Reached env (renderElements env enter name elements) log { s with current := name } log
      (renderTemplate env enter (.mk name elements)) s := by
  rw [Evaluation.renderTemplate]
  exact .next (.step fun _ _ => rfl) .here

theorem renderElements_append (env : Environment) (enter : Template → Render Unit)
    (name : Option String) (before after : List (Element × Option Position)) :
    renderElements env enter name (before ++ after) =
      renderElements env enter name before >>= fun _ => renderElements env enter name after := by
  induction before with
  | nil => simp only [List.nil_append, renderElements, pure_bind]
  | cons element before ih =>
    obtain ⟨element, place⟩ := element
    simp only [List.cons_append, renderElements, bind_assoc, ih]

/-- It comes to each of the elements when those in front of it are rendered. -/
theorem element {name : Option String} {before after : List (Element × Option Position)}
    {element : Element} {place : Option Position}
    (h : Account env log (renderElements env enter name before) s log₁ (.ok (), t)) :
    Reached env (renderElement env enter element) log₁ t log
      (renderElements env enter name (before ++ (element, place) :: after)) s := by
  rw [renderElements_append, Evaluation.renderElements]
  exact .next h (.first (.located .here))

theorem callHelper {c : Call} {isBlock startsLine : Bool} {body alternative : Option (Render Unit)}
    {helper : Helper} {args : List Evaluated} {hash : Table Evaluated}
    (hhelper : env.registry.helpers.get? c.name = some helper)
    (hargs : Account env log (evalParams env c.args) s log₁ (.ok args, t))
    (hhash : Account env log₁ (evalHash env c.hash) t log₂ (.ok hash, u)) :
    Reached env (runHelper env helper ⟨c.name, args, hash, c.blockParams, body, alternative⟩) log₂
      { u with indentNext := u.indentNext || (startsLine && u.lineEnded), produced := false } log
      (callHelper env c isBlock startsLine body alternative) s := by
  have hfound (fallback : String) : findHelper env c.name fallback = .ok helper := by
    rw [findHelper, hhelper]
    rfl
  simp only [Evaluation.callHelper, Evaluation.invocation, bind_assoc, pure_bind, hfound]
  exact .next hargs (.next hhash (.look (.next (.step fun _ _ => rfl) (.first .here))))

/-- **A tag with the name of a helper is a call of it**, once its arguments are evaluated. -/
theorem tag {element : Element} {tag : Tag} (htag : tag? element = some tag) {helper : Helper}
    (hhelper : env.registry.helpers.get? tag.call.name = some helper) {args : List Evaluated}
    {hash : Table Evaluated}
    (hargs : Account env log (evalParams env tag.call.args) (tag.opened s) log₁ (.ok args, t))
    (hhash : Account env log₁ (evalHash env tag.call.hash) t log₂ (.ok hash, u)) :
    Reached env (runHelper env helper (tag.invocation env enter args hash)) log₂ (tag.entered u) log
      (renderElement env enter element) s := by
  cases element with
  | call c escaped =>
    obtain rfl := Option.some.inj htag
    rw [Evaluation.renderElement]
    cases escaped with
    | true =>
      rw [Tag.opened, Bool.not_true, Bool.or_false] at hargs
      exact callHelper hhelper hargs hhash
    | false =>
      rw [Tag.opened, Bool.not_false, Bool.or_true] at hargs
      exact .next (.step fun _ _ => rfl) (.first (callHelper hhelper hargs hhash))
  | block c body alternative startsLine =>
    obtain rfl := Option.some.inj htag
    rw [Tag.opened, Bool.not_true, Bool.or_false] at hargs
    cases alternative with
    | none =>
      rw [Evaluation.renderElement]
      exact callHelper hhelper hargs hhash
    | some alternative =>
      rw [Evaluation.renderElement]
      exact callHelper hhelper hargs hhash
  | _ => cases htag

end Reached

/-! ## Events -/

variable {env : Environment}

/-- An event of a log was made by a call. The predicate tells which evaluations are come to, with
which log and in which state. -/
def BlockEvent.Made (env : Environment) (reached : Render Unit → List BlockEvent → State → Prop) :
    BlockEvent → Prop
  | captured name fragment => ∃ inv log t u,
      reached (runHelper env .captureBlock inv) log t ∧ blockName inv = .ok name ∧
      orNothing inv.body { t with out := "" } = (.ok (), u) ∧ u.out = fragment
  | failed name => ∃ inv log t u err,
      reached (runHelper env .captureBlock inv) log t ∧ blockName inv = .ok name ∧
      orNothing inv.body { t with out := "" } = (.error err, u)
  | taken name => ∃ inv log t,
      reached (runHelper env .emitBlock inv) log t ∧ blockName inv = .ok name

theorem BlockEvent.Made.mono {reached reached' : Render Unit → List BlockEvent → State → Prop}
    {event : BlockEvent} (h : event.Made env reached)
    (hreached : ∀ {call log t}, reached call log t → reached' call log t) :
    event.Made env reached' := by
  cases event with
  | captured name fragment =>
    obtain ⟨inv, log, t, u, h, hmade⟩ := h
    exact ⟨inv, log, t, u, hreached h, hmade⟩
  | failed name =>
    obtain ⟨inv, log, t, u, err, h, hmade⟩ := h
    exact ⟨inv, log, t, u, err, hreached h, hmade⟩
  | taken name =>
    obtain ⟨inv, log, t, h, hmade⟩ := h
    exact ⟨inv, log, t, hreached h, hmade⟩

/-- **Every event of an account was made by a call** that the evaluation came to. -/
theorem Account.made {α : Type} {log log' : List BlockEvent} {r : Render α} {s : State}
    {x : Except RenderError α × State} (h : Account env log r s log' x) (hs : Agrees log s) :
    ∃ new, log' = log ++ new ∧
      ∀ event ∈ new, event.Made env fun call log' t => Reached env call log' t log r s := by
  induction h with
  | value | error | step => exact ⟨[], (List.append_nil _).symm, nofun⟩
  | look _ _ ih =>
    obtain ⟨new, rfl, hnew⟩ := ih hs
    exact ⟨new, rfl, fun event he => (hnew event he).mono .look⟩
  | bind hr hf ih ihf =>
    obtain ⟨new, rfl, hnew⟩ := ih hs
    obtain ⟨more, rfl, hmore⟩ := ihf (hr.right hs).2
    refine ⟨new ++ more, List.append_assoc .., List.forall_mem_append.2 ⟨fun event he => ?_,
      fun event he => ?_⟩⟩
    · exact (hnew event he).mono .first
    · exact (hmore event he).mono (.next hr)
  | stop _ ih =>
    obtain ⟨new, rfl, hnew⟩ := ih hs
    exact ⟨new, rfl, fun event he => (hnew event he).mono .first⟩
  | located _ ih | misplaced _ ih =>
    obtain ⟨new, rfl, hnew⟩ := ih hs
    exact ⟨new, rfl, fun event he => (hnew event he).mono .located⟩
  | @captured log _ inv name s t hname hr ih =>
    obtain ⟨new, rfl, hnew⟩ := ih (hs.of_blocks rfl)
    refine ⟨new ++ [.captured name t.out], List.append_assoc .., List.forall_mem_append.2
      ⟨fun event he => (hnew event he).mono (.body hname), List.forall_mem_singleton.2 ?_⟩⟩
    exact ⟨inv, log, s, t, .here, hname, (hr.right (hs.of_blocks rfl)).1, rfl⟩
  | @failed log _ inv name s t err hname hr ih =>
    obtain ⟨new, rfl, hnew⟩ := ih (hs.of_blocks rfl)
    refine ⟨new ++ [.failed name], List.append_assoc .., List.forall_mem_append.2
      ⟨fun event he => (hnew event he).mono (.body hname), List.forall_mem_singleton.2 ?_⟩⟩
    exact ⟨inv, log, s, t, err, .here, hname, (hr.right (hs.of_blocks rfl)).1⟩
  | @emitted log inv name s hname =>
    exact ⟨[.taken name], rfl, List.forall_mem_singleton.2 ⟨inv, log, s, .here, hname⟩⟩
  | @replaced log _ inv name _ s _ hname hempty hbody _ ih =>
    obtain ⟨new, rfl, hnew⟩ := ih (hs.taken rfl)
    refine ⟨.taken name :: new, List.append_cons .. |>.symm, List.forall_mem_cons.2
      ⟨⟨inv, log, s, .here, hname⟩, fun event he => (hnew event he).mono ?_⟩⟩
    exact .replacement hname hempty hbody

end Views.Evaluation
