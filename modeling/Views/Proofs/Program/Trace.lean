import Views.Proofs.Engine.Plan
import Views.Proofs.Program.Sharing

/-!
# Traces

`Sharing.Trace s log s'`: programs that share a world go from `s` to `s'` while the files may change
at any moment, and `log` is what happened, in order. The world alone decides what each request is
answered, so some facts hold of all programs: what was compiled under a key stands there until
something replaces it (`Trace.holds_compiled`).

`Program.Keeps A D Q p past` is about one program alone: whatever it is answered within `A`, each
request of `p` is warranted (`D`) by the steps that it made before, and it ends with `Q`. In a trace
of such programs every request was warranted when it was made (`Trace.keeps`).
-/

set_option autoImplicit false

namespace Views

/-! ## What happens -/

/-- What happens while programs share a world. -/
inductive Happening where
  /-- One of the programs has a request answered. -/
  | answered (i : Nat) (step : Step)
  /-- Somebody changes the files. -/
  | edited (files : Files.FileTree)

/-- The step that one of the programs makes in a happening. -/
def Happening.stepOf? (i : Nat) : Happening → Option Step
  | answered j step => if j = i then some step else none
  | edited _ => none

/-- The steps of one of the programs, in order. -/
def stepsOf (i : Nat) (log : List Happening) : List Step := log.filterMap (Happening.stepOf? i)

section

variable {i j : Nat} {log log' : List Happening} {step : Step}

@[simp] theorem stepsOf_nil : stepsOf i [] = [] := rfl

@[simp] theorem stepsOf_append : stepsOf i (log ++ log') = stepsOf i log ++ stepsOf i log' :=
  List.filterMap_append

@[simp] theorem stepsOf_answered_self : stepsOf i [.answered i step] = [step] := by
  simp [stepsOf, Happening.stepOf?]

theorem stepsOf_answered_ne (h : j ≠ i) : stepsOf i [.answered j step] = [] := by
  simp [stepsOf, Happening.stepOf?, h]

@[simp] theorem stepsOf_edited (files : Files.FileTree) : stepsOf i [.edited files] = [] := rfl

theorem mem_stepsOf : step ∈ stepsOf i log ↔ .answered i step ∈ log := by
  simp only [stepsOf, List.mem_filterMap]
  constructor
  · rintro ⟨x, hx, hs⟩
    cases x with
    | answered j other =>
      rw [Happening.stepOf?] at hs
      split at hs
      · rename_i hj
        rwa [← hj, ← Option.some.inj hs]
      · cases hs
    | edited files => cases hs
  · exact fun h => ⟨_, h, if_pos rfl⟩

theorem getLast?_stepsOf_ne (h : j ≠ i) :
    (stepsOf i (log ++ [.answered j step])).getLast? = (stepsOf i log).getLast? := by
  rw [stepsOf_append, stepsOf_answered_ne h, List.append_nil]

@[simp] theorem getLast?_stepsOf_self :
    (stepsOf i (log ++ [.answered i step])).getLast? = some step := by
  rw [stepsOf_append, stepsOf_answered_self, List.getLast?_concat]

theorem mem_of_getLast?_stepsOf (h : (stepsOf i log).getLast? = some step) :
    .answered i step ∈ log := mem_stepsOf.1 (List.mem_of_getLast? h)

end

namespace Sharing

variable {α : Type} {s s' m : Sharing α} {log log' : List Happening}

/-- One thing happens. -/
inductive Happens : Sharing α → Happening → Sharing α → Prop
  | answer {w : World} {ps : List (Program α)} {i : Nat} {r : Request}
      {next : r.Answer → Program α} (h : ps[i]? = some (.ask r next)) :
      Happens ⟨w, ps⟩ (.answered i ⟨r, (w.perform r).1⟩)
        ⟨(w.perform r).2, ps.set i (next (w.perform r).1)⟩
  | edit {w : World} {ps : List (Program α)} (files : Files.FileTree) :
      Happens ⟨w, ps⟩ (.edited files) ⟨{ w with files }, ps⟩

/-- What happens on the way from one state to another. -/
inductive Trace (s : Sharing α) : List Happening → Sharing α → Prop
  | start : Trace s [] s
  | next {log : List Happening} {x : Happening} {m s' : Sharing α} (h : Trace s log m)
      (hx : m.Happens x s') : Trace s (log ++ [x]) s'

namespace Trace

theorem trans (h : s.Trace log m) (h' : m.Trace log' s') : s.Trace (log ++ log') s' := by
  induction h' with
  | start => rwa [List.append_nil]
  | next _ hx ih => exact List.append_assoc .. ▸ .next ih hx

theorem split (h : s.Trace (log ++ log') s') : ∃ m, s.Trace log m ∧ m.Trace log' s' := by
  generalize hl : log ++ log' = whole at h
  induction h generalizing log' with
  | start =>
    obtain ⟨rfl, rfl⟩ := List.append_eq_nil_iff.1 hl
    exact ⟨s, .start, .start⟩
  | @next whole x m s' h hx ih =>
    -- The last happening lies behind the cut, unless nothing does.
    rcases List.eq_nil_or_concat' log' with rfl | ⟨log', y, rfl⟩
    · rw [List.append_nil] at hl
      exact ⟨s', hl ▸ .next h hx, .start⟩
    · rw [← List.append_assoc] at hl
      obtain ⟨hw, rfl⟩ := List.append_singleton_inj.1 hl
      obtain ⟨k, h1, h2⟩ := ih hw
      exact ⟨k, h1, .next h2 hx⟩

theorem happens_of_cons {x : Happening} (h : s.Trace (x :: log) s') :
    ∃ m, s.Happens x m ∧ m.Trace log s' := by
  rw [← List.singleton_append] at h
  obtain ⟨m, h1, h2⟩ := h.split
  refine ⟨m, ?_, h2⟩
  generalize hl : [x] = whole at h1
  cases h1 with
  | start => cases hl
  | next h hx =>
    obtain ⟨hn, rfl⟩ := List.append_singleton_inj.1 ((List.nil_append _).trans hl)
    cases h with
    | start => exact hx
    | next => simp at hn

/-- At an answer in the log a program had asked for it, and the world gave it. -/
theorem asked {i : Nat} {r : Request} {answer : r.Answer}
    (h : s.Trace (.answered i ⟨r, answer⟩ :: log) s') :
    ∃ (next : r.Answer → Program α) (m : Sharing α), s.programs[i]? = some (.ask r next) ∧
      answer = (s.world.perform r).1 ∧ m.world = (s.world.perform r).2 ∧ m.Trace log s' := by
  obtain ⟨m, hx, h⟩ := h.happens_of_cons
  cases hx with
  | answer hi => exact ⟨_, _, hi, rfl, rfl, h⟩

end Trace

/-- One of the programs has not ended. -/
def InFlight (s : Sharing α) (i : Nat) : Prop := ∃ r next, s.programs[i]? = some (.ask r next)

theorem Trace.inFlight {i : Nat} (h : s.Trace log s') (hi : s'.InFlight i) : s.InFlight i := by
  induction h with
  | start => exact hi
  | next _ hx ih =>
    refine ih ?_
    cases hx with
    | @answer w ps j r next hj =>
      by_cases hij : j = i
      · exact ⟨r, next, hij ▸ hj⟩
      · obtain ⟨r', next', hi⟩ := hi
        exact ⟨r', next', (List.getElem?_set_ne hij).symm.trans hi⟩
    | edit files => exact hi

theorem Trace.inFlight_of_answered {i : Nat} {step : Views.Step} (h : s.Trace log s')
    (hm : .answered i step ∈ log) : s.InFlight i := by
  obtain ⟨before, after, rfl⟩ := List.append_of_mem hm
  obtain ⟨m, h, h'⟩ := h.split
  obtain ⟨next, -, hi, -⟩ := h'.asked
  exact h.inFlight ⟨_, next, hi⟩

end Sharing

/-! ## Programs with a rule -/

namespace Program

variable {α β : Type} {A : (r : Request) → r.Answer → Prop} {D : List Step → Request → Prop}

/-- Whatever the program is answered within `A`, its requests are warranted by the steps before
them, and it ends with `Q`; `past` are the steps that it has made already. -/
def Keeps (A : (r : Request) → r.Answer → Prop) (D : List Step → Request → Prop)
    (Q : α → List Step → Prop) : Program α → List Step → Prop
  | done a, past => Q a past
  | ask r next, past => D past r ∧
    ∀ answer, A r answer → (next answer).Keeps A D Q (past ++ [⟨r, answer⟩])

namespace Keeps

variable {Q Q' : α → List Step → Prop} {past : List Step}

theorem mono {p : Program α} (h : p.Keeps A D Q past) (hq : ∀ a past, Q a past → Q' a past) :
    p.Keeps A D Q' past := by
  induction p generalizing past with
  | done a => exact hq a past h
  | ask r next ih => exact ⟨h.1, fun answer ha => ih answer (h.2 answer ha)⟩

/-- A program that keeps to two rules keeps to both of them. -/
theorem both {D' : List Step → Request → Prop} {p : Program α} (h : p.Keeps A D Q past)
    (h' : p.Keeps A D' Q' past) :
    p.Keeps A (fun past r => D past r ∧ D' past r) (fun a past => Q a past ∧ Q' a past) past := by
  induction p generalizing past with
  | done a => exact ⟨h, h'⟩
  | ask r next ih =>
    exact ⟨⟨h.1, h'.1⟩, fun answer ha => ih answer (h.2 answer ha) (h'.2 answer ha)⟩

/-- A program that keeps to a rule keeps to what follows from it, also if it is answered less. -/
theorem weaken {A' : (r : Request) → r.Answer → Prop} {D' : List Step → Request → Prop}
    {p : Program α} (h : p.Keeps A D Q past) (ha : ∀ r answer, A' r answer → A r answer)
    (hd : ∀ past r, D past r → D' past r) (hq : ∀ a past, Q a past → Q' a past) :
    p.Keeps A' D' Q' past := by
  induction p generalizing past with
  | done a => exact hq a past h
  | ask r next ih =>
    exact ⟨hd past r h.1, fun answer hanswer => ih answer (h.2 answer (ha r answer hanswer))⟩

/-- Without a rule there is nothing to keep to. -/
theorem of_forall (h : ∀ past r, D past r) (p : Program α) (past : List Step) :
    p.Keeps A D (fun _ _ => True) past := by
  induction p generalizing past with
  | done a => trivial
  | ask r next ih => exact ⟨h past r, fun answer _ => ih answer _⟩

theorem bind {p : Program α} {f : α → Program β} {Q : β → List Step → Prop}
    (h : p.Keeps A D (fun a past => (f a).Keeps A D Q past) past) :
    (p.bind f).Keeps A D Q past := by
  induction p generalizing past with
  | done a => exact h
  | ask r next ih => exact ⟨h.1, fun answer ha => ih answer (h.2 answer ha)⟩

theorem attempt {x : Attempt α} {f : α → Attempt β} {Q : Except ViewError β → List Step → Prop}
    (h : Keeps A D (fun r past => match r with
      | .ok a => Keeps A D Q (f a) past
      | .error e => Q (.error e) past) x past) :
    Keeps A D Q (Program.bind x (Attempt.after f)) past := by
  refine bind (mono h fun r past hr => ?_)
  cases r with
  | ok a => exact hr
  | error e => exact hr

theorem grows {p : Program α} (h : p.Keeps A D Q past) :
    p.Keeps A D (fun a past' => Q a past' ∧ past <+: past') past := by
  induction p generalizing past with
  | done a => exact ⟨h, List.prefix_rfl⟩
  | ask r next ih =>
    refine ⟨h.1, fun answer ha => (ih answer (h.2 answer ha)).mono fun a past' hq => ?_⟩
    exact ⟨hq.1, (List.prefix_append _ _).trans hq.2⟩

/-- One program after another, of which the first has a statement of its own. -/
theorem andThen {p : Program α} {f : α → Program β} {Q : α → List Step → Prop}
    {Q' : β → List Step → Prop} (hp : p.Keeps A D Q past)
    (hf : ∀ a past', Q a past' → past <+: past' → (f a).Keeps A D Q' past') :
    (p.bind f).Keeps A D Q' past :=
  bind (hp.grows.mono fun a past' h => hf a past' h.1 h.2)

theorem attemptThen {x : Attempt α} {f : α → Attempt β} {Q : Except ViewError α → List Step → Prop}
    {Q' : Except ViewError β → List Step → Prop} (hx : Keeps A D Q x past)
    (hok : ∀ a past', Q (.ok a) past' → past <+: past' → Keeps A D Q' (f a) past')
    (herr : ∀ err past', Q (.error err) past' → Q' (.error err) past') :
    Keeps A D Q' (Program.bind x (Attempt.after f)) past := by
  refine andThen hx fun r past' h hp => ?_
  cases r with
  | ok a => exact hok a past' h hp
  | error err => exact herr err past' h

end Keeps

/-- A request that is warranted at any time, and does not change what is known of the steps. -/
def Free (D : List Step → Request → Prop) (P : List Step → Prop) (r : Request) : Prop :=
  ∀ past, P past → D past r ∧ ∀ answer, P (past ++ [⟨r, answer⟩])

theorem Free.keeps {P : List Step → Prop} {r : Request} {next : r.Answer → Program α}
    {Q : α → List Step → Prop} {past : List Step} (h : Free D P r) (hp : P past)
    (hn : ∀ answer past', P past' → (next answer).Keeps A D Q past') :
    (ask r next).Keeps A D Q past :=
  ⟨(h past hp).1, fun answer _ => hn answer _ ((h past hp).2 answer)⟩

/-- A program that only makes such requests keeps to the rule. -/
theorem Asks.keeps {P : List Step → Prop} {C : Request → Prop} {p : Program α}
    {past : List Step} (h : p.Asks C) (hfree : ∀ r, C r → Free D P r) (hp : P past) :
    p.Keeps A D (fun _ past' => P past') past := by
  induction p generalizing past with
  | done a => exact hp
  | ask r next ih =>
    exact (hfree r h.1).keeps hp fun answer past' hp' => ih answer (h.2 answer) hp'

end Program

namespace Sharing.Trace

variable {α : Type} {s s' : Sharing α} {log : List Happening}

/-- **In a trace of programs with a rule every request keeps to it**, as long as the world gives
answers within `A`. What the world needs for that may be carried along (`J`). -/
theorem keeps {A : (r : Request) → r.Answer → Prop} {D : Nat → List Views.Step → Request → Prop}
    {Q : Nat → α → List Views.Step → Prop} {J : List Happening → World → Prop} (h : s.Trace log s')
    (hstart : J [] s.world)
    (hprograms : ∀ (i : Nat) (p : Program α), s.programs[i]? = some p → p.Keeps A (D i) (Q i) [])
    (hanswer : ∀ log w i r, J log w → D i (stepsOf i log) r →
      A r (w.perform r).1 ∧ J (log ++ [.answered i ⟨r, (w.perform r).1⟩]) (w.perform r).2)
    (hedit : ∀ log w files, J log w → J (log ++ [.edited files]) { w with files }) :
    J log s'.world ∧ ∀ (i : Nat) (p : Program α), s'.programs[i]? = some p →
      p.Keeps A (D i) (Q i) (stepsOf i log) := by
  induction h with
  | start => exact ⟨hstart, hprograms⟩
  | next _ hx ih =>
    obtain ⟨hJ, hk⟩ := ih
    cases hx with
    | @answer w ps j r next hj =>
      obtain ⟨hd, hnext⟩ := hk j _ hj
      obtain ⟨ha, hJ'⟩ := hanswer _ w j r hJ hd
      refine ⟨hJ', fun i p hp => ?_⟩
      rw [stepsOf_append]
      -- Only the program that was answered has gone on, by the step that its rule is told of.
      rcases program_set hj hp with ⟨rfl, rfl⟩ | ⟨hij, hp⟩
      · rw [stepsOf_answered_self]
        exact hnext _ ha
      · rw [stepsOf_answered_ne hij, List.append_nil]
        exact hk i p hp
    | edit files =>
      refine ⟨hedit _ _ files hJ, fun i p hp => ?_⟩
      rw [stepsOf_append, stepsOf_edited, List.append_nil]
      exact hk i p hp

end Sharing.Trace

/-! ## What the stores keep -/

/-- Something else is stored under a key than a text. -/
def Happening.Replaces (key text : String) : Happening → Prop
  | answered _ ⟨.compile key' text', .ok _⟩ => key' = key ∧ text' ≠ text
  | answered _ ⟨.registerPartial name _, .ok _⟩ => name = key
  | _ => False

theorem Happening.replaces_cases {key text : String} {x : Happening} (h : x.Replaces key text) :
    (∃ i text' t, x = answered i ⟨.compile key text', .ok t⟩ ∧ text' ≠ text) ∨
      ∃ i source, x = answered i ⟨.registerPartial key source, .ok ()⟩ := by
  cases x with
  | edited files => exact h.elim
  | answered i step =>
    obtain ⟨r, answer⟩ := step
    cases r with
    | compile key' text' =>
      cases answer with
      | error err => exact h.elim
      | ok t => exact .inl ⟨i, text', t, by rw [h.1], h.2⟩
    | registerPartial name source =>
      cases answer with
      | error err => exact h.elim
      | ok u => exact .inr ⟨i, source, congrArg (fun n => answered i
          ⟨.registerPartial n source, (.ok () : Except ViewError Unit)⟩) h⟩
    | _ => exact h.elim

namespace World

variable {w : World} {r : Request} {key text : String} {i : Nat}

theorem holds_perform (h : w.registry.Holds key text)
    (hr : ¬ (Happening.answered i ⟨r, (w.perform r).1⟩).Replaces key text) :
    (w.perform r).2.registry.Holds key text := by
  cases r with
  | compile key' text' =>
    rw [Engine.perform_compile] at hr ⊢
    cases he : Template.elementsOf text' false with
    | error err => exact h
    | ok elements =>
      refine h.define fun hk => ?_
      -- The same text was compiled again, and gives the same elements.
      obtain ⟨elements', he', hg⟩ := h
      have ht : text' = text := by
        by_contra hne
        refine hr ?_
        rw [Engine.compiled, he]
        exact ⟨hk, hne⟩
      rw [ht, he', Except.ok.injEq] at he
      rw [hg, hk, he]
  | registerPartial name source =>
    rw [Engine.perform_registerPartial] at hr ⊢
    cases hc : Template.compile name source true with
    | error err => exact h
    | ok t =>
      rw [hc] at hr
      exact h.define fun hk => absurd hk hr
  | _ => exact h

theorem holds_compile {t : Compiled} (h : (w.perform (.compile key text)).1 = .ok t) :
    t = ⟨key, key⟩ ∧ (w.perform (.compile key text)).2.registry.Holds key text := by
  rw [Engine.perform_compile] at h ⊢
  unfold Engine.compiled at h
  cases he : Template.elementsOf text false with
  | error err => rw [he] at h; cases h
  | ok elements =>
    rw [he] at h
    cases h
    exact ⟨rfl, elements, he, Table.get?_insert_self ..⟩

end World

namespace Sharing.Trace

variable {α : Type} {s s' : Sharing α} {log : List Happening}

theorem files_eq (h : s.Trace log s') (hedits : ∀ files, .edited files ∉ log) :
    s'.world.files = s.world.files := by
  induction h with
  | start => rfl
  | next _ hx ih =>
    have hm := ih fun files hf => hedits files (List.mem_append_left _ hf)
    cases hx with
    | answer hi => exact (World.files_perform _ _).trans hm
    | edit files =>
      exact absurd (List.mem_append_right _ (List.mem_singleton_self _)) (hedits files)

theorem read_eq {i : Nat} {path text : String} (h : s.Trace log s')
    (hedits : ∀ files, .edited files ∉ log) (hm : .answered i ⟨.read path, .ok text⟩ ∈ log) :
    s.world.files.read path = .ok text := by
  obtain ⟨before, after, rfl⟩ := List.append_of_mem hm
  obtain ⟨m, h, h'⟩ := h.split
  obtain ⟨-, -, -, ha, -⟩ := h'.asked
  have hfiles := h.files_eq fun files hf => hedits files (List.mem_append_left _ hf)
  change _ = (m.world.files.read path).mapError _ at ha
  rw [hfiles] at ha
  cases hr : s.world.files.read path with
  | error fault => rw [hr] at ha; cases ha
  | ok text' => rw [hr] at ha; rw [Except.ok.inj ha]

theorem holds {key text : String} (h : s.Trace log s') (hs : s.world.registry.Holds key text)
    (hr : ∀ x ∈ log, ¬ x.Replaces key text) : s'.world.registry.Holds key text := by
  induction h with
  | start => exact hs
  | next _ hx ih =>
    have hm := ih fun x hx => hr x (List.mem_append_left _ hx)
    cases hx with
    | answer hi =>
      exact World.holds_perform hm (hr _ (List.mem_append_right _ (List.mem_singleton_self _)))
    | edit files => exact hm

/-- **What was compiled under a key stands there** until something replaces it. -/
theorem holds_compiled {i : Nat} {key text : String} {t : Compiled} {before after : List Happening}
    (h : s.Trace (before ++ .answered i ⟨.compile key text, .ok t⟩ :: after) s')
    (hr : ∀ x ∈ after, ¬ x.Replaces key text) :
    t = ⟨key, key⟩ ∧ s'.world.registry.Holds key text := by
  obtain ⟨m, -, h⟩ := h.split
  obtain ⟨-, k, -, ha, hk, h⟩ := h.asked
  obtain ⟨ht, hh⟩ := World.holds_compile ha.symm
  exact ⟨ht, h.holds (hk ▸ hh) hr⟩

end Sharing.Trace

end Views
