import Views.Proofs.Program.Trace

/-!
# Programs alone in a world

`p.Alone w P`: with nothing else going on, the program `p` takes the world `w` to a result, a world
and some compiled templates that are related by `P`. It is put together along the program
(`Alone.bind`, `Alone.attempt`, `Alone.ask`). `Program.Recalls` is about programs that leave the
world as it is and load nothing. What a run registers it has either compiled or registered as a
partial (`Program.names_run`).
-/

set_option autoImplicit false

namespace Views

/-- The template that a step compiles, if it compiles one. -/
def Step.compiled? : Step → Option Compiled
  | ⟨.compile _ _, .ok t⟩ => some t
  | _ => none

/-- The templates that some steps compile, in order. -/
def compilations (steps : List Step) : List Compiled := steps.filterMap Step.compiled?

/-- The name under which a step registers a partial, if it does. -/
def Step.registered? : Step → Option String
  | ⟨.registerPartial name _, .ok _⟩ => some name
  | _ => none

/-- The names under which some steps register partials, in order. -/
def registrations (steps : List Step) : List String := steps.filterMap Step.registered?

@[simp] theorem compilations_append (a b : List Step) :
    compilations (a ++ b) = compilations a ++ compilations b := List.filterMap_append

@[simp] theorem registrations_append (a b : List Step) :
    registrations (a ++ b) = registrations a ++ registrations b := List.filterMap_append

/-- The names under which something is registered. -/
def Registry.names (r : Registry) : List String := r.templates.keys

theorem Registry.mem_names_define {r : Registry} {name other : String} {t : Template}
    (h : other ∈ (r.define name t).names) : other = name ∨ other ∈ r.names := by
  obtain ⟨entry, hentry, rfl⟩ := List.mem_map.1 h
  rcases Table.mem_insert hentry with rfl | hentry
  · exact .inl rfl
  · exact .inr (List.mem_map_of_mem hentry)

/-- A request to the files, or to add something to the registry. -/
def Request.Loads : Request → Prop
  | .read _ | .probe _ | .list _ _ | .compile _ _ | .registerPartial _ _ => True
  | _ => False

namespace Program

variable {α β : Type} {w : World}

theorem steps_ask (r : Request) (next : r.Answer → Program α) (w : World) :
    ((ask r next).run w).steps =
      [⟨r, (w.perform r).1⟩] ++ ((next (w.perform r).1).run (w.perform r).2).steps := rfl

/-- What comes of a program that runs alone: its result, the world, and the templates that it has
compiled. -/
def Alone (w : World) (p : Program α) (P : α → World → List Compiled → Prop) : Prop :=
  P (p.run w).result (p.run w).world (compilations (p.run w).steps)

namespace Alone

variable {P P' : α → World → List Compiled → Prop} {Q : β → World → List Compiled → Prop}

theorem done {a : α} (h : P a w []) : (done a).Alone w P := h

theorem mono {p : Program α} (h : p.Alone w P) (hP : ∀ a v made, P a v made → P' a v made) :
    p.Alone w P' := hP _ _ _ h

theorem bind {p : Program α} {f : α → Program β}
    (h : p.Alone w fun a v made => (f a).Alone v fun b u made' => Q b u (made ++ made')) :
    (p.bind f).Alone w Q := by
  unfold Alone at h ⊢
  rw [run_bind, compilations_append]
  exact h

theorem attempt {x : Attempt α} {f : α → Attempt β}
    {Q : Except ViewError β → World → List Compiled → Prop}
    (h : Program.Alone w x fun r v made => match r with
      | .ok a => Program.Alone v (f a) fun b u made' => Q b u (made ++ made')
      | .error err => Q (.error err) v made) :
    (Program.bind x (Attempt.after f)).Alone w Q := by
  refine bind (mono h fun r v made hr => ?_)
  cases r with
  | ok a => exact hr
  | error err => exact done ((List.append_nil made).symm ▸ hr)

theorem ask {r : Request} {next : r.Answer → Program α}
    (h : (next (w.perform r).1).Alone (w.perform r).2 fun a v made =>
      P a v (compilations [⟨r, (w.perform r).1⟩] ++ made)) : (ask r next).Alone w P := by
  unfold Alone at h ⊢
  rw [steps_ask, compilations_append]
  exact h

end Alone

/-! ## Programs that load nothing -/

/-- From a world the program comes to a result without loading anything, and leaves the world as it
is. -/
structure Recalls (w : World) (p : Program α) (a : α) : Prop where
  result : (p.run w).result = a
  world : (p.run w).world = w
  steps : ∀ step ∈ (p.run w).steps, ¬ step.1.Loads

namespace Recalls

variable {w : World}

theorem done (a : α) : (done a).Recalls w a := ⟨rfl, rfl, fun _ h => by cases h⟩

theorem ask {r : Request} {next : r.Answer → Program α} {answer : r.Answer} {a : α}
    (hr : w.perform r = (answer, w)) (hl : ¬ r.Loads) (h : (next answer).Recalls w a) :
    (ask r next).Recalls w a := by
  constructor
  · rw [run_ask, hr]
    exact h.result
  · rw [run_ask, hr]
    exact h.world
  · rw [run_ask, hr]
    intro step hs
    rcases List.mem_cons.1 hs with rfl | hs
    · exact hl
    · exact h.steps step hs

theorem bind {p : Program α} {f : α → Program β} {a : α} {b : β} (hp : p.Recalls w a)
    (hf : (f a).Recalls w b) : (p.bind f).Recalls w b := by
  have hrun : (p.bind f).run w = ⟨b, w, (p.run w).steps ++ ((f a).run w).steps⟩ := by
    rw [run_bind]
    simp only [hp.result, hp.world, hf.result, hf.world]
  refine ⟨congrArg Run.result hrun, congrArg Run.world hrun, fun step hs => ?_⟩
  rw [hrun] at hs
  rcases List.mem_append.1 hs with hs | hs
  · exact hp.steps step hs
  · exact hf.steps step hs

theorem alone {p : Program α} {a : α} {P : α → World → List Compiled → Prop} (hp : p.Recalls w a)
    (h : P a w []) : p.Alone w P := by
  have hnone : compilations (p.run w).steps = [] := by
    refine List.filterMap_eq_nil_iff.2 fun step hs => ?_
    have hl := hp.steps step hs
    obtain ⟨r, answer⟩ := step
    cases r with
    | compile key text => exact absurd trivial hl
    | _ => rfl
  unfold Alone
  rw [hp.result, hp.world, hnone]
  exact h

end Recalls

/-! ## What a run registers -/

theorem names_perform (w : World) (r : Request) {name : String}
    (h : name ∈ (w.perform r).2.registry.names) :
    name ∈ w.registry.names ∨ name ∈ registrations [⟨r, (w.perform r).1⟩] ∨
      ∃ t ∈ compilations [⟨r, (w.perform r).1⟩], t.key = name := by
  cases r with
  | compile key text =>
    rw [Engine.perform_compile] at h ⊢
    unfold Engine.compiled
    cases he : Template.elementsOf text false with
    | error err =>
      rw [he] at h
      exact .inl h
    | ok elements =>
      rw [he] at h
      rcases Registry.mem_names_define h with rfl | h
      · exact .inr (.inr ⟨⟨name, name⟩, List.mem_singleton_self _, rfl⟩)
      · exact .inl h
  | registerPartial other text =>
    rw [Engine.perform_registerPartial] at h ⊢
    cases hc : Template.compile other text true with
    | error err =>
      rw [hc] at h
      exact .inl h
    | ok t =>
      rw [hc] at h
      rcases Registry.mem_names_define h with rfl | h
      · exact .inr (.inl (List.mem_singleton_self _))
      · exact .inl h
  | _ => exact .inl h

/-- **What is registered after a run** was there before, or was registered as a partial or compiled
by it. -/
theorem names_run (p : Program α) (w : World) {name : String}
    (h : name ∈ (p.run w).world.registry.names) :
    name ∈ w.registry.names ∨ name ∈ registrations (p.run w).steps ∨
      ∃ t ∈ compilations (p.run w).steps, t.key = name := by
  induction p generalizing w with
  | done a => exact .inl h
  | ask r next ih =>
    rw [steps_ask, registrations_append, compilations_append]
    rcases ih _ (w.perform r).2 h with hmid | hmid | ⟨t, ht, hkey⟩
    · rcases names_perform w r hmid with hw | hr | ⟨t, ht, hkey⟩
      · exact .inl hw
      · exact .inr (.inl (List.mem_append_left _ hr))
      · exact .inr (.inr ⟨t, List.mem_append_left _ ht, hkey⟩)
    · exact .inr (.inl (List.mem_append_right _ hmid))
    · exact .inr (.inr ⟨t, List.mem_append_right _ ht, hkey⟩)

theorem Keeps.run_steps {D : Request → Prop} {Q : α → List Step → Prop} {p : Program α}
    {past : List Step} (h : p.Keeps (fun _ _ => True) (fun _ r => D r) Q past) (w : World) :
    ∀ step ∈ (p.run w).steps, D step.1 := by
  induction p generalizing w past with
  | done a => exact fun step hs => by cases hs
  | ask r next ih =>
    intro step hs
    rw [steps_ask] at hs
    rcases List.mem_cons.1 hs with rfl | hs
    · exact h.1
    · exact ih _ (h.2 _ trivial) _ step hs

end Program

end Views
