import Views.Proofs.Engine.Tasks

/-!
# Numbers of compilations

With caching every compilation draws a number, which is then in its key. No number is drawn twice
(`Counted`), so no key is compiled with two texts (`once`), and what was compiled stands as it is
for as long as no partial is registered under the name of a key (`stands`).
-/

set_option autoImplicit false

namespace Views

/-- The name of the partial that is registered. -/
def Happening.registered? : Happening → Option String
  | answered _ ⟨.registerPartial name _, _⟩ => some name
  | _ => none

/-- No partial is registered under a name like that of a key. -/
def Apart (log : List Happening) : Prop :=
  ∀ name ∈ log.filterMap Happening.registered?, ¬ Engine.KeyLike name

namespace Engine

variable {e : Engine} {base : Registry} {files : Files.FileTree} {tasks : List Task}
  {s : Sharing Task.Report} {log before after : List Happening} {w : World} {i : Nat}

/-- The numbers in a log: all are below the next one, and one that has just been drawn is in no key
and was drawn by one task. -/
structure Counted (log : List Happening) (w : World) : Prop where
  drawn : ∀ i (n : Nat), .answered i ⟨.nextNumber, n⟩ ∈ log → n < w.number
  used : ∀ i kind path n text answer,
    .answered i ⟨.compile (keyOf kind path (some n)) text, answer⟩ ∈ log → n < w.number
  unused : ∀ i (n : Nat), (stepsOf i log).getLast? = some ⟨.nextNumber, n⟩ →
    ∀ j kind path text answer, .answered j ⟨.compile (keyOf kind path (some n)) text, answer⟩ ∉ log
  alone : ∀ i j (n : Nat), (stepsOf i log).getLast? = some ⟨.nextNumber, n⟩ →
    (stepsOf j log).getLast? = some ⟨.nextNumber, n⟩ → i = j

/-- A step that draws only the next number, and compiles only under the number drawn before. -/
theorem Counted.add (h : Counted log w) {w' : World} {step : Step} (hw : w.number ≤ w'.number)
    (hdraw : ∀ n : Nat, step = ⟨.nextNumber, n⟩ → n = w.number ∧ n < w'.number)
    (huse : ∀ kind path n text answer, step = ⟨.compile (keyOf kind path (some n)) text, answer⟩ →
      (stepsOf i log).getLast? = some ⟨.nextNumber, n⟩) :
    Counted (log ++ [.answered i step]) w' := by
  have hlast (j n : Nat) (hj : (stepsOf j (log ++ [.answered i step])).getLast? =
      some ⟨.nextNumber, n⟩) : i = j ∧ step = ⟨.nextNumber, n⟩ ∧ n = w.number ∨
        i ≠ j ∧ (stepsOf j log).getLast? = some ⟨.nextNumber, n⟩ := by
    by_cases hij : i = j
    · subst hij
      have hs := Option.some.inj (getLast?_stepsOf_self.symm.trans hj)
      exact .inl ⟨rfl, hs, (hdraw n hs).1⟩
    · exact .inr ⟨hij, getLast?_stepsOf_ne hij ▸ hj⟩
  have hmem {j : Nat} {other : Step} (hm : .answered j other ∈ log ++ [.answered i step]) :
      .answered j other ∈ log ∨ j = i ∧ other = step := by
    simpa using hm
  constructor
  case drawn =>
    intro j n hm
    rcases hmem hm with hm | ⟨-, hs⟩
    · exact Nat.lt_of_lt_of_le (h.drawn j n hm) hw
    · exact (hdraw n hs.symm).2
  case used =>
    intro j kind path n text answer hm
    rcases hmem hm with hm | ⟨-, hs⟩
    · exact Nat.lt_of_lt_of_le (h.used _ _ _ _ _ _ hm) hw
    · have hi := mem_of_getLast?_stepsOf (huse _ _ _ _ _ hs.symm)
      exact Nat.lt_of_lt_of_le (h.drawn i n hi) hw
  case unused =>
    intro j n hj j' kind path text answer hm
    rcases hmem hm with hm | ⟨-, hs⟩
    · rcases hlast j n hj with ⟨-, -, rfl⟩ | ⟨-, hj⟩
      -- A number that is in a key already lies below the one that is drawn now.
      · exact absurd (h.used _ _ _ _ _ _ hm) (Nat.lt_irrefl _)
      · exact h.unused j n hj _ _ _ _ _ hm
    · rcases hlast j n hj with ⟨-, hs', -⟩ | ⟨hij, hj⟩
      · cases hs.trans hs'
      -- The number that is used now was drawn last by two tasks.
      · exact hij (h.alone i j n (huse _ _ _ _ _ hs.symm) hj)
  case alone =>
    intro j j' n hj hj'
    rcases hlast j n hj with ⟨hi, -, hn⟩ | ⟨-, hj⟩ <;>
      rcases hlast j' n hj' with ⟨hi', -, hn'⟩ | ⟨-, hj'⟩
    · exact hi.symm.trans hi'
    · exact absurd (h.drawn j' n (mem_of_getLast?_stepsOf hj')) (by omega)
    · exact absurd (h.drawn j n (mem_of_getLast?_stepsOf hj)) (by omega)
    · exact h.alone j j' n hj hj'

theorem Counted.perform {X : List Step → Compiled → Fields → Scope → Prop}
    (hon : e.config.caching = true) (h : Counted log w) {r : Request}
    (hr : e.Warranted X (stepsOf i log) r) :
    Counted (log ++ [.answered i ⟨r, (w.perform r).1⟩]) (w.perform r).2 := by
  rw [World.perform_world]
  cases r with
  | nextNumber =>
    refine h.add (Nat.le_succ _) ?_ fun _ _ _ _ _ hs => by cases hs
    rintro n ⟨⟩
    exact ⟨rfl, Nat.lt_succ_self _⟩
  | compile key text =>
    refine h.add (Nat.le_refl _) (fun _ hs => by cases hs)
      fun kind path n text' answer hs => ?_
    obtain ⟨hkey, -⟩ := Request.compile.inj (congrArg Sigma.fst hs)
    -- The rule says that the number in the key was drawn in the step before.
    cases hr with
    | @file o kind' path' j source ho hread hi =>
      cases j with
      | none => cases hi.symm.trans hon
      | some m =>
        obtain rfl := keyOf_some_inj hkey
        exact hi.2
    | identity => exact absurd hkey (identityKey_ne_keyOf_some kind path n)
  | _ => exact h.add (Nat.le_refl _) (fun _ hs => by cases hs) fun _ _ _ _ _ hs => by cases hs

theorem Counted.edit (h : Counted log w) (files : Files.FileTree) :
    Counted (log ++ [.edited files]) { w with files } := by
  have hmem {j : Nat} {step : Step} (hm : .answered j step ∈ log ++ [.edited files]) :
      .answered j step ∈ log := by
    simpa using hm
  have hsteps (j : Nat) : stepsOf j (log ++ [.edited files]) = stepsOf j log := by simp
  constructor
  · exact fun j n hm => h.drawn j n (hmem hm)
  · exact fun j kind path n text answer hm => h.used j kind path n text answer (hmem hm)
  · exact fun j n hj j' kind path text answer hm =>
      h.unused j n (hsteps j ▸ hj) j' kind path text answer (hmem hm)
  · exact fun j j' n hj hj' => h.alone j j' n (hsteps j ▸ hj) (hsteps j' ▸ hj')

theorem counted (hon : e.config.caching = true) (h : (e.started base files tasks).Trace log s) :
    Counted log s.world :=
  (kept (K := Counted) h
    ⟨fun _ _ h => by simp at h, fun _ _ _ _ _ _ h => by simp at h, fun _ _ h => by simp at h,
      fun _ _ _ h => by simp at h⟩
    (fun _ _ _ _ _ hK hr => hK.perform hon hr) fun _ _ files hK => hK.edit files).1.2

/-- **With caching no key is compiled with two texts.** -/
theorem once (hon : e.config.caching = true) {key text text' : String}
    {answer answer' : Except ViewError Compiled} {j : Nat}
    (h : (e.started base files tasks).Trace
      (before ++ .answered i ⟨.compile key text, answer⟩ :: after) s)
    (hj : .answered j ⟨.compile key text', answer'⟩ ∈ before) : text' = text := by
  obtain ⟨m, hm, -⟩ := h.split
  generalize hk : key = k at h
  cases obeyed h with
  | @file o kind path n source ho hread hn =>
    subst hk
    cases n with
    | none => cases hn.symm.trans hon
    | some n => exact absurd hj ((counted hon hm).unused i n hn.2 _ _ _ _ _)
  | identity =>
    subst hk
    obtain ⟨first, rest, rfl⟩ := List.append_of_mem hj
    exact (obeyed hm).eq_identitySource hon

/-- **With caching what was compiled stands** as it was compiled. -/
theorem stands (hon : e.config.caching = true) (h : (e.started base files tasks).Trace log s)
    (hp : Apart log) {o : Origin} {text : String} {t : Compiled} (ht : e.MadeIn log o text t) :
    s.world.registry.Holds t.key text := by
  obtain ⟨i, hmade⟩ := ht
  obtain ⟨key, hkey, hc⟩ := hmade.compiled
  obtain ⟨before, after, rfl⟩ := List.append_of_mem (mem_stepsOf.1 hc)
  have hstays : ∀ x ∈ after, ¬ x.Replaces key text := by
    intro x hx hr
    obtain ⟨mid, rest, rfl⟩ := List.append_of_mem hx
    rw [← List.cons_append, ← List.append_assoc] at h
    rcases Happening.replaces_cases hr with ⟨j, text', t', rfl, hne⟩ | ⟨j, source, rfl⟩
    · exact hne (once hon h (List.mem_append_right _ List.mem_cons_self)).symm
    · refine hp key (List.mem_filterMap.2 ⟨.answered j ⟨.registerPartial key source, .ok ()⟩, ?_,
        rfl⟩) hkey
      exact List.mem_append_right _ (List.mem_cons_of_mem _ hx)
  obtain ⟨rfl, hh⟩ := h.holds_compiled hstays
  exact hh

end Engine

end Views
