import Views.Proofs.Engine.Seeks
import Views.Proofs.Engine.Tasks
import Views.Proofs.Evaluation.Data

/-!
# What flows where in a render

A render executes at most two templates. `Engine.Executes` says which, on which variables and in
which scope: first the view that it has prepared, on the merged variables, and then, if that gave a
body, the layout, on the same variables with the body among them and in the scope that the view
left. All else that it asks for is about the one name of its view (`Engine.Concerns`). So it is in
every trace (`concerned`), whatever the other tasks do.
-/

set_option autoImplicit false

namespace Views

/-- The steps that execute a template. -/
def executed (steps : List Step) : List Step := steps.filter fun step => step.executed?.isSome

theorem executed_concat {past : List Step} {t : Compiled} {locals : Fields} {scope : Scope}
    (answer : Except ViewError String × Scope) :
    executed (past ++ [⟨.execute t locals scope, answer⟩]) =
      executed past ++ [⟨.execute t locals scope, answer⟩] := List.filter_append ..

namespace Engine

variable (e : Engine)

/-- What a render may execute after some steps. -/
inductive Executes (q : Query) (past : List Step) : Compiled → Fields → Scope → Prop
  /-- The view comes first. -/
  | view {p : Prepared} (h : e.Has q past p) (hx : executed past = []) :
      Executes q past p.view (e.merged q) (e.startScope q)
  /-- The layout comes next, around the body. -/
  | layout {p : Prepared} {t : Compiled} {body : String} {scope : Scope} (h : e.Has q past p)
      (ht : p.layout = some t) (hx : executed past =
        [⟨.execute p.view (e.merged q) (e.startScope q), (.ok body, scope)⟩]) :
      Executes q past t (e.layoutLocals q body) scope

/-- What a request of a render is about. -/
def Concerns (q : Query) (past : List Step) : Request → Prop
  | .execute t locals scope => e.Executes q past t locals scope
  | r => e.Seeks q.logical r

/-- What a render with an output has executed: the view, and the layout that gave the output. -/
def Gives (q : Query) (past : List Step) (result : Except ViewError String) : Prop :=
  ∀ output, result = .ok output → ∃ p t body scope left, e.Has q past p ∧ p.layout = some t ∧
    executed past = [⟨.execute p.view (e.merged q) (e.startScope q), (.ok body, scope)⟩,
      ⟨.execute t (e.layoutLocals q body) scope, (.ok output, left)⟩]

variable {e} {q : Query} {past : List Step}

theorem gives_error (err : ViewError) : e.Gives q past (.error err) := fun _ h => by cases h

/-! ## A render -/

/-- A program that only prepares keeps to what concerns a render, and executes nothing. -/
theorem concerns_of_seeks {α : Type} {p : Program α} {A : (r : Request) → r.Answer → Prop}
    {D : List Step → Request → Prop} {Q : α → List Step → Prop} (h : p.Keeps A D Q past)
    (hp : p.Asks (e.Seeks q.logical)) :
    p.Keeps A (e.Concerns q) (fun a past' => Q a past' ∧ executed past' = executed past) past := by
  induction p generalizing past with
  | done a => exact ⟨h, rfl⟩
  | ask r next ih =>
    refine ⟨?_, fun answer ha => ?_⟩
    · cases r with
      | execute t locals scope => exact hp.1.elim
      | _ => exact hp.1
    · have hstep : executed (past ++ [⟨r, answer⟩]) = executed past := by
        rw [executed, List.filter_append]
        cases r with
        | execute t locals scope => exact hp.1.elim
        | _ => exact List.append_nil _
      have hrest := ih answer (h.2 answer ha) (hp.2 answer)
      exact hrest.mono fun a past' hq => ⟨hq.1, hq.2.trans hstep⟩

theorem finish_concerns {A : (r : Request) → r.Answer → Prop} {p : Prepared} (h : e.Has q past p)
    (hx : executed past = []) : Program.Keeps A (e.Concerns q)
      (fun result past' => e.Gives q past' result)
      (e.finish q.logical (e.merged q) q.request p) past := by
  rw [finish_eq]
  refine .attemptThen (execute_keeps (.view h hx)) (fun a past₁ ha hp => ?_)
    fun err _ _ => gives_error err
  obtain ⟨body, scope⟩ := a
  obtain rfl := ha body scope rfl
  cases hl : p.layout with
  | none => exact gives_error _
  | some layout =>
    have hhas := h.mono hp
    have hview : executed (past ++ [⟨.execute p.view (e.merged q) (e.startScope q),
        (.ok body, scope)⟩]) =
        [⟨.execute p.view (e.merged q) (e.startScope q), (.ok body, scope)⟩] := by
      rw [executed_concat, hx]
      rfl
    refine .attemptThen (execute_keeps (.layout hhas hl hview)) (fun a past₂ ha hp => ?_)
      fun err _ _ => gives_error err
    obtain ⟨output, left⟩ := a
    obtain rfl := ha output left rfl
    rintro _ ⟨⟩
    refine ⟨p, layout, body, scope, left, hhas.mono hp, hl, ?_⟩
    exact (executed_concat _).trans (congrArg (· ++ [_]) hview)

/-- **All that a render asks for concerns it**, and an output is what its layout gave. -/
theorem answer_concerns (q : Query) :
    (e.answer q).Keeps e.Answers (e.Concerns q)
      (fun result past' => e.Gives q past' result) [] := by
  have horderly : e.Orderly (fun _ _ _ _ => False) _ (e.prepare q.logical (e.merged q)) [] :=
    prepare_orderly q
  have hprepare := concerns_of_seeks horderly (e.prepare_seeks q.logical (e.merged q))
  rw [answer_bind]
  exact .attemptThen hprepare (fun p past' h _ => finish_concerns (h.1 p rfl) h.2)
    fun err _ _ => gives_error err

/-! ## A trace -/

variable {base : Registry} {files : Files.FileTree} {tasks : List Task}
  {s : Sharing Task.Report} {log before after : List Happening} {i : Nat}

/-- **All that a render asks for in a trace concerns it.** -/
theorem concerned {r : Request} {answer : r.Answer} (hq : tasks[i]? = some (.render q))
    (h : (e.started base files tasks).Trace (before ++ .answered i ⟨r, answer⟩ :: after) s) :
    e.Concerns q (stepsOf i before) r := followed (answer_concerns q) hq h

/-- **What a render ends with in a trace it gives.** -/
theorem given {result : Except ViewError String} (hq : tasks[i]? = some (.render q))
    (h : (e.started base files tasks).Trace log s)
    (hp : s.programs[i]? = some (.done (.rendered result))) : e.Gives q (stepsOf i log) result :=
  ruled (answer_concerns q) hq h hp result rfl

/-- An execution leaves the data of the scope as it is. -/
theorem data_of_executed {t : Compiled} {locals : Fields} {scope left : Scope}
    {result : Except ViewError String} (h : (e.started base files tasks).Trace log s)
    (hm : .answered i ⟨.execute t locals scope, (result, left)⟩ ∈ log) :
    left.data = scope.data := by
  obtain ⟨before, after, rfl⟩ := List.append_of_mem hm
  obtain ⟨m, -, h⟩ := h.split
  obtain ⟨-, -, -, hanswer, -⟩ := h.asked
  have hleft := congrArg (fun x => x.2.data) hanswer
  exact hleft.trans (m.world.registry.data_execute t (.object locals) scope)

end Engine

end Views
