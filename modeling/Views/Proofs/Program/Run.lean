import Mathlib
import Views.Engine.World

/-!
# Runs of programs

A run of one program after another is the two runs joined (`Program.run_bind`), and an attempt goes
on with the rest only if its first part gave a value (`Attempt.bind_eq`). `executions` are the
templates that the steps of a run execute, and `Program.Asks P` says of a program that whatever it
is answered it asks only for what `P` allows.

The library is imported whole here and in the few modules that evaluate something without a run: it
has the equations of the core functions by which `cbv` evaluates a closed run.
-/

set_option autoImplicit false

namespace Views

namespace Program

variable {α β : Type}

/-! ## Forms of programs -/

@[simp] theorem pure_eq (a : α) : (pure a : Program α) = done a := rfl

@[simp] theorem bind_eq (p : Program α) (f : α → Program β) : (p >>= f) = p.bind f := rfl

@[simp] theorem done_bind (a : α) (f : α → Program β) : (done a).bind f = f a := rfl

@[simp] theorem request_bind (r : Request) (f : r.Answer → Program β) :
    (request r).bind f = ask r f := rfl

@[simp] theorem ask_bind (r : Request) (next : r.Answer → Program α) (f : α → Program β) :
    (ask r next).bind f = ask r fun answer => (next answer).bind f := rfl

@[simp] theorem map_eq (f : α → β) (p : Program α) : f <$> p = p.bind fun a => done (f a) := rfl

/-! ## Runs -/

@[simp] theorem run_done (a : α) (w : World) : (done a).run w = ⟨a, w, []⟩ := rfl

theorem run_ask (r : Request) (next : r.Answer → Program α) (w : World) :
    (ask r next).run w =
      let rest := (next (w.perform r).1).run (w.perform r).2
      ⟨rest.result, rest.world, ⟨r, (w.perform r).1⟩ :: rest.steps⟩ := rfl

theorem request_run (r : Request) (w : World) : (request r).run w =
    ⟨(w.perform r).1, (w.perform r).2, [⟨r, (w.perform r).1⟩]⟩ := rfl

theorem run_bind (p : Program α) (f : α → Program β) (w : World) :
    (p.bind f).run w =
      let first := p.run w
      let rest := (f first.result).run first.world
      ⟨rest.result, rest.world, first.steps ++ rest.steps⟩ := by
  induction p generalizing w with
  | done a => rfl
  | ask r next ih => simp only [ask_bind, run_ask, ih, List.cons_append]

end Program

namespace Attempt

variable {α β : Type}

/-- What an attempt goes on with: the rest of it, or its error. -/
def after (f : α → Attempt β) : Except ViewError α → Program (Except ViewError β)
  | .ok a => f a
  | .error e => .done (.error e)

theorem bind_eq (x : Attempt α) (f : α → Attempt β) : (x >>= f) = Program.bind x (after f) := by
  show Program.bind x _ = _
  congr
  funext r
  cases r <;> rfl

@[simp] theorem pure_eq (a : α) : (pure a : Attempt α) = Program.done (.ok a) := rfl

@[simp] theorem throw_eq (e : ViewError) : (throw e : Attempt α) = Program.done (.error e) := rfl

@[simp] theorem of_eq (p : Program (Except ViewError α)) : Attempt.of p = p := rfl

@[simp] theorem lift_eq (p : Program α) :
    (liftM p : Attempt α) = p.bind fun a => Program.done (.ok a) := rfl

/-- A program that cannot fail is gone on from as it is. -/
@[simp] theorem lift_bind (p : Program α) (f : α → Attempt β) :
    Program.bind (p.bind fun a => Program.done (.ok a)) (after f) = Program.bind p f := by
  rw [Program.bind_assoc]
  rfl

theorem bind_after {γ : Type} (x : Attempt α) (f : α → Attempt β) (g : β → Attempt γ) :
    Program.bind (Program.bind x (after f)) (after g) =
      Program.bind x (after fun a => Program.bind (f a) (after g)) := by
  rw [Program.bind_assoc]
  congr
  funext r
  cases r <;> rfl

@[simp] theorem map_eq (f : α → β) (x : Attempt α) :
    (f <$> x) = Program.bind x fun r => Program.done (r.map f) := by
  show Program.bind x _ = _
  congr
  funext r
  cases r <;> rfl

@[simp] theorem after_ok (f : α → Attempt β) (a : α) : after f (.ok a) = f a := rfl

@[simp] theorem after_error (f : α → Attempt β) (e : ViewError) :
    after f (.error e) = Program.done (.error e) := rfl

end Attempt

/-! ## Answers of the stores -/

namespace World

theorem perform_recallPath (w : World) (name : String) :
    w.perform (.recallPath name) = (w.paths.get? name, w) := rfl

theorem perform_storePath (w : World) (name path : String) :
    w.perform (.storePath name path) = ((), { w with paths := w.paths.insert name path }) := rfl

theorem perform_recallEntry (w : World) (name : String) :
    w.perform (.recallEntry name) = (w.cache.get? name, w) := rfl

theorem perform_storeEntry (w : World) (name : String) (entry : CacheEntry) :
    w.perform (.storeEntry name entry) = ((), { w with cache := w.cache.insert name entry }) := rfl

theorem perform_recallDefault (w : World) :
    w.perform .recallDefault = (w.cache.defaultLayout?, w) := rfl

theorem perform_nextNumber (w : World) :
    w.perform .nextNumber = (w.number, { w with number := w.number + 1 }) := rfl

theorem perform_execute (w : World) (template : Compiled) (locals : Fields) (scope : Scope) :
    w.perform (.execute template locals scope) =
      (w.registry.execute template (.object locals) scope, w) := rfl

/-- What a request stores, but for templates. -/
def storing (w : World) : Request → World
  | .storePath name path => { w with paths := w.paths.insert name path }
  | .storeEntry name entry => { w with cache := w.cache.insert name entry }
  | .storeDefault layout => { w with cache := w.cache.setDefaultLayout layout }
  | .nextNumber => { w with number := w.number + 1 }
  | .storeScan => { w with scanned := true }
  | _ => w

/-- The world after a request differs from the one before in the templates and in what the request
stores. -/
theorem perform_world (w : World) (r : Request) :
    (w.perform r).2 = { w.storing r with registry := (w.perform r).2.registry } := by
  cases r with
  | compile key source =>
    simp only [perform]
    cases w.registry.compile key source <;> rfl
  | registerPartial name source =>
    simp only [perform]
    cases w.registry.registerPartial name source <;> rfl
  | _ => rfl

theorem files_perform (w : World) (r : Request) : (w.perform r).2.files = w.files := by
  rw [perform_world]
  cases r <;> rfl

end World

/-! ## Executions -/

/-- The template that a step executes, if it executes one. -/
def Step.executed? : Step → Option Compiled
  | ⟨.execute template _ _, _⟩ => some template
  | _ => none

/-- The templates that some steps execute, in order. -/
def executions (steps : List Step) : List Compiled := steps.filterMap Step.executed?

@[simp] theorem executions_nil : executions [] = [] := rfl

@[simp] theorem executions_append (a b : List Step) :
    executions (a ++ b) = executions a ++ executions b := List.filterMap_append

namespace Program

variable {α β : Type}

/-- Whatever the program is answered, it asks only for what `P` allows. -/
def Asks (P : Request → Prop) : Program α → Prop
  | done _ => True
  | ask r next => P r ∧ ∀ answer, (next answer).Asks P

namespace Asks

variable {P : Request → Prop}

theorem bind {p : Program α} {f : α → Program β} (hp : p.Asks P) (hf : ∀ a, (f a).Asks P) :
    (p.bind f).Asks P := by
  induction p with
  | done a => exact hf a
  | ask r next ih => exact ⟨hp.1, fun answer => ih answer (hp.2 answer)⟩

theorem request {r : Request} (h : P r) : (Program.request r).Asks P := ⟨h, fun _ => trivial⟩

theorem attempt {x : Attempt α} {f : α → Attempt β} (hx : Asks P x) (hf : ∀ a, Asks P (f a)) :
    Asks P (Program.bind x (Attempt.after f)) :=
  bind hx fun r => match r with
    | .ok a => hf a
    | .error _ => trivial

theorem mono {P' : Request → Prop} {p : Program α} (hp : p.Asks P) (h : ∀ r, P r → P' r) :
    p.Asks P' := by
  induction p with
  | done a => trivial
  | ask r next ih => exact ⟨h r hp.1, fun answer => ih answer (hp.2 answer)⟩

theorem steps {p : Program α} (hp : p.Asks P) (w : World) :
    ∀ step ∈ (p.run w).steps, P step.1 := by
  induction p generalizing w with
  | done a => exact fun _ h => by cases h
  | ask r next ih =>
    intro step hm
    rcases List.mem_cons.1 hm with rfl | hm
    · exact hp.1
    · exact ih _ (hp.2 _) _ step hm

/-- What the requests leave as it is the whole program does. -/
theorem world {J : World → Prop} {p : Program α} {w : World} (hp : p.Asks P) (hw : J w)
    (h : ∀ w r, P r → J w → J (w.perform r).2) : J (p.run w).world := by
  induction p generalizing w with
  | done a => exact hw
  | ask r next ih => exact ih _ (hp.2 _) (h w r hp.1 hw)

/-- A program that may not execute anything has executed nothing when it ends. -/
theorem executions {p : Program α} (hp : p.Asks P)
    (hx : ∀ t locals scope, ¬ P (.execute t locals scope)) (w : World) :
    Views.executions (p.run w).steps = [] := by
  induction p generalizing w with
  | done a => rfl
  | ask r next ih =>
    cases r with
    | execute template locals scope => exact absurd hp.1 (hx template locals scope)
    | _ => exact ih _ (hp.2 _) _

end Asks

end Program

end Views
