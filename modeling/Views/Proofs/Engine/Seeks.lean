import Views.Proofs.Engine.Loading
import Views.Proofs.Engine.Outcome

/-!
# What a render looks for and what it executes

Until it executes something a render looks for one name only, in the memo of paths, among the views
and in the cache (`Engine.Seeks`, `prepare_seeks`). All that it executes is in its second part: the
view and, if that gives a body and there is a layout, the layout around it (`finish_run`).
-/

set_option autoImplicit false

namespace Views

open Program

/-- What may be asked for before a view is executed: of what is found by the name of a view, only
what belongs to the name; and no execution. -/
def Engine.Seeks (e : Engine) (logical : String) : Request → Prop
  | .recallPath name => name = logical
  | .storePath name _ => name = logical
  | .probe path => path = e.resolver.templatePath logical
  | .recallEntry name => name = logical
  | .storeEntry name _ => name = logical
  | .execute _ _ _ => False
  | _ => True

namespace Engine

variable (e : Engine) {logical : String}

/-! ## Preparing -/

theorem seeks_of_registering {s : PartialSource} {paths : List String} {r : Request}
    (h : s.Registering paths r) : e.Seeks logical r := by
  cases h <;> trivial

theorem seeks_of_scanning {s : PartialSource} {r : Request} (h : s.Scanning r) :
    e.Seeks logical r := by
  cases h with
  | registering h => exact e.seeks_of_registering h
  | _ => trivial

theorem seeks_of_looking {r : Request} (h : e.resolver.Looking logical r) :
    e.Seeks logical r := by
  cases h <;> exact rfl

theorem seeks_of_assembling {r : Request} (h : e.Assembling logical r) : e.Seeks logical r := by
  cases h with
  | loading h =>
    cases h with
    | readying h =>
      cases h with
      | registering _ h => exact e.seeks_of_registering h
      | number => trivial
    | compile i => trivial
  | recallEntry => exact rfl
  | storeEntry entry => exact rfl
  | _ => trivial

/-- **Preparing a render looks for its view only, and executes nothing.** -/
theorem prepare_seeks (logical : String) (merged : Fields) :
    Asks (e.Seeks logical) (e.prepare logical merged) := by
  rw [prepare_eq]
  refine .bind ((e.resolver.resolve_asks _).mono fun _ => e.seeks_of_looking) fun path => ?_
  cases path with
  | none => trivial
  | some path =>
    refine .bind (e.partials.ensureScanned_asks.mono fun _ => e.seeks_of_scanning) fun _ => ?_
    refine .attempt ((e.entryFor_asks _ _).mono fun _ => e.seeks_of_assembling) fun entry => ?_
    refine .bind ?_ fun _ => trivial
    split
    · trivial
    · exact e.defaultLayout_asks.mono fun _ => e.seeks_of_assembling

/-! ## Executing -/

variable {e}

theorem execute_run (t : Compiled) (locals : Fields) (scope : Scope) (w : World) :
    (Program.run (execute t locals scope) w).result = w.registry.ran t locals scope ∧
      (Program.run (execute t locals scope) w).world = w ∧
      executions (Program.run (execute t locals scope) w).steps = [t] := by
  rw [execute_eq]
  exact ⟨rfl, rfl, rfl⟩

/-- **What the second part of a render executes and gives.** -/
theorem finish_run (q : Query) (p : Prepared) (w : World) :
    (Program.run (e.finish q.logical (e.merged q) q.request p) w).result =
        e.finished q p w.registry w.registry ∧
      (Program.run (e.finish q.logical (e.merged q) q.request p) w).world = w ∧
      executions (Program.run (e.finish q.logical (e.merged q) q.request p) w).steps =
        match w.registry.ran p.view (e.merged q) (e.startScope q) with
        | .error _ => [p.view]
        | .ok _ => p.view :: p.layout.toList := by
  obtain ⟨hr, hw, hs⟩ := execute_run p.view (e.merged q) (e.startScope q) w
  rw [finish_eq, Program.run_bind]
  simp only [startScope, executions_append] at hr hw hs ⊢
  rw [hr, hw, hs]
  cases hran : w.registry.ran p.view (e.merged q) (Scope.withData (e.scopeData q.request)) with
  | error err => exact ⟨(finished_of_error hran).symm, rfl, rfl⟩
  | ok a =>
    obtain ⟨body, scope⟩ := a
    rw [finished_of_ok hran]
    cases hp : p.layout with
    | none => exact ⟨rfl, rfl, rfl⟩
    | some layout =>
      obtain ⟨hr', hw', hs'⟩ := execute_run layout (e.layoutLocals q body) scope w
      simp only [layoutLocals] at hr' hw' hs' ⊢
      simp only [Attempt.after_ok]
      rw [Program.run_bind]
      simp only [executions_append]
      rw [hr', hw', hs']
      cases w.registry.ran layout (Table.insert (e.merged q) "body" (.string body)) scope with
      | error err => exact ⟨rfl, rfl, rfl⟩
      | ok a => exact ⟨rfl, rfl, rfl⟩

/-- A render that is prepared executes the view and its layout, and leaves the rest as it is. -/
theorem answer_run {q : Query} {p : Prepared} {w v : World}
    (hp : (Program.run (e.prepare q.logical (e.merged q)) w).result = .ok p)
    (hw : (Program.run (e.prepare q.logical (e.merged q)) w).world = v) :
    ((e.answer q).run w).result = e.finished q p v.registry v.registry ∧
      ((e.answer q).run w).world = v ∧
      executions ((e.answer q).run w).steps =
        match v.registry.ran p.view (e.merged q) (e.startScope q) with
        | .error _ => [p.view]
        | .ok _ => p.view :: p.layout.toList := by
  obtain ⟨hr', hw', hs'⟩ := finish_run (e := e) q p v
  have hsilent := (e.prepare_seeks q.logical (e.merged q)).executions (fun _ _ _ => id) w
  rw [answer_bind, Program.run_bind]
  simp only [executions_append]
  rw [hsilent, hp, hw]
  exact ⟨hr', hw', hs'⟩

end Engine

end Views
