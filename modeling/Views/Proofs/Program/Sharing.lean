import Mathlib.Logic.Relation
import Views.Proofs.Program.Run

/-!
# Programs that share a world

Several programs share one world: at each step one of them has its next request answered
(`Sharing.Step`), so the reachable states are those of all interleavings.

`Program.Meets I R G Q p w` is the logic for one of them. Whenever the other programs have moved the
world on by `R` and left it in a state of `I`, each step of `p` keeps `I` and moves the world by
`G`, and `p` ends with `Q`. What holds of each program alone holds of all together
(`Sharing.meets`), if what the programs do (`G`) is among what they expect of each other (`R`); a
program that runs alone is the special case in which nothing moves (`Program.Meets.run`).
-/

set_option autoImplicit false

namespace Views

namespace Program

variable {α β : Type} {I : World → Prop} {R G : World → World → Prop}

/-- The program keeps `I`, moves by `G` and ends with `Q`, among others that move by `R` and keep
`I`; `w` is the world it has seen last. -/
def Meets (I : World → Prop) (R G : World → World → Prop) (Q : α → World → Prop) :
    Program α → World → Prop
  | done a, w => Q a w
  | ask r next, w => ∀ v, R w v → I v →
    I (v.perform r).2 ∧ G v (v.perform r).2 ∧
      (next (v.perform r).1).Meets I R G Q (v.perform r).2

namespace Meets

variable {Q Q' : α → World → Prop}

theorem mono {p : Program α} {w : World} (h : p.Meets I R G Q w) (hq : ∀ a w, Q a w → Q' a w) :
    p.Meets I R G Q' w := by
  induction p generalizing w with
  | done a => exact hq a w h
  | ask r next ih =>
    intro v hr hi
    obtain ⟨h1, h2, h3⟩ := h v hr hi
    exact ⟨h1, h2, ih _ h3⟩

/-- A program needs no more of the others than they do, and may be said to do more than it does. -/
theorem weaken {R' G' : World → World → Prop} {p : Program α} {w : World}
    (h : p.Meets I R G Q w) (hr : ∀ w v, R' w v → R w v) (hg : ∀ w v, G w v → G' w v) :
    p.Meets I R' G' Q w := by
  induction p generalizing w with
  | done a => exact h
  | ask r next ih =>
    intro v hv hi
    obtain ⟨h1, h2, h3⟩ := h v (hr _ _ hv) hi
    exact ⟨h1, hg _ _ h2, ih _ h3⟩

theorem bind {p : Program α} {f : α → Program β} {Q : β → World → Prop} {w : World}
    (h : p.Meets I R G (fun a w => (f a).Meets I R G Q w) w) : (p.bind f).Meets I R G Q w := by
  induction p generalizing w with
  | done a => exact h
  | ask r next ih =>
    intro v hr hi
    obtain ⟨h1, h2, h3⟩ := h v hr hi
    exact ⟨h1, h2, ih _ h3⟩

theorem request {r : Request} {Q : r.Answer → World → Prop} {w : World}
    (h : ∀ v, R w v → I v →
      I (v.perform r).2 ∧ G v (v.perform r).2 ∧ Q (v.perform r).1 (v.perform r).2) :
    (Program.request r).Meets I R G Q w := h

/-- An attempt goes on only with a value. -/
theorem attempt {x : Attempt α} {f : α → Attempt β} {Q : Except ViewError β → World → Prop}
    {w : World}
    (h : Meets I R G (fun r w => match r with
      | .ok a => Meets I R G Q (f a) w
      | .error e => Q (.error e) w) x w) : Meets I R G Q (Program.bind x (Attempt.after f)) w := by
  refine bind (mono h fun r w hr => ?_)
  cases r with
  | ok a => exact hr
  | error e => exact hr

/-- Among programs that keep to a preorder the world ends up beyond where it started. -/
theorem extend (refl : ∀ w, R w w) (trans : ∀ u v w, R u v → R v w → R u w) {p : Program α}
    {w : World} (h : p.Meets I R R Q w) (hi : I w) :
    p.Meets I R R (fun a v => Q a v ∧ I v ∧ R w v) w := by
  induction p generalizing w with
  | done a => exact ⟨h, hi, refl w⟩
  | ask r next ih =>
    intro v hr hiv
    obtain ⟨h1, h2, h3⟩ := h v hr hiv
    refine ⟨h1, h2, (ih _ h3 h1).mono ?_⟩
    rintro a u ⟨hq, hiu, hru⟩
    exact ⟨hq, hiu, trans _ _ _ (trans _ _ _ hr h2) hru⟩

/-- What a program meets among others it meets alone. -/
theorem run {p : Program α} {w : World} (h : p.Meets I R G Q w) (hr : ∀ w, R w w) (hi : I w) :
    Q (p.run w).result (p.run w).world ∧ I (p.run w).world := by
  induction p generalizing w with
  | done a => exact ⟨h, hi⟩
  | ask r next ih =>
    obtain ⟨h1, -, h3⟩ := h w (hr w) hi
    exact ih _ h3 h1

end Meets

end Program

/-! ## Interleavings -/

/-- Programs that share a world, and what is left of each. -/
structure Sharing (α : Type) where
  world : World
  programs : List (Program α)

namespace Sharing

variable {α : Type}

/-- One of the programs has its next request answered. -/
inductive Step : Sharing α → Sharing α → Prop
  | answer {w : World} {ps : List (Program α)} {i : Nat} {r : Request}
      {next : r.Answer → Program α} (h : ps[i]? = some (.ask r next)) :
      Step ⟨w, ps⟩ ⟨(w.perform r).2, ps.set i (next (w.perform r).1)⟩

/-- The states that the interleavings of some programs go through. -/
def Reaches (s s' : Sharing α) : Prop := Relation.ReflTransGen Step s s'

/-- All programs have ended. -/
def Ended (s : Sharing α) : Prop := ∀ p ∈ s.programs, ∃ a, p = .done a

/-- After a step a program is what the answered one goes on with, or it is another one. -/
theorem program_set {ps : List (Program α)} {i j : Nat} {p q answered : Program α}
    (hj : ps[j]? = some answered) (hq : (ps.set j p)[i]? = some q) :
    j = i ∧ p = q ∨ j ≠ i ∧ ps[i]? = some q := by
  by_cases hij : j = i
  · subst hij
    rw [List.getElem?_set_self (List.getElem?_eq_some_iff.1 hj).1] at hq
    exact .inl ⟨rfl, Option.some.inj hq⟩
  · rw [List.getElem?_set_ne hij] at hq
    exact .inr ⟨hij, hq⟩

/-- A program may run to its end while the others wait. -/
theorem reaches_run {p : Program α} {w : World} {ps : List (Program α)} {i : Nat}
    (h : ps[i]? = some p) :
    (Sharing.mk w ps).Reaches ⟨(p.run w).world, ps.set i (.done (p.run w).result)⟩ := by
  induction p generalizing w ps with
  | done a =>
    obtain ⟨hlt, he⟩ := List.getElem?_eq_some_iff.1 h
    rw [Program.run_done, ← he, List.set_getElem_self]
    exact .refl
  | ask r next ih =>
    have hset : (ps.set i (next (w.perform r).1))[i]? = some (next (w.perform r).1) := by
      rw [List.getElem?_set_self (List.getElem?_eq_some_iff.1 h).1]
    have hrest := ih (w.perform r).1 (w := (w.perform r).2) hset
    rw [List.set_set] at hrest
    exact .head (.answer h) hrest

/-! ### Every interleaving ends -/

/-- One of some programs goes on with an answer. -/
def Shrinks (qs ps : List (Program α)) : Prop :=
  ∃ (i : Nat) (r : Request) (next : r.Answer → Program α) (answer : r.Answer),
    ps[i]? = some (.ask r next) ∧ qs = ps.set i (next answer)

theorem acc_cons (p : Program α) {ps : List (Program α)} (h : Acc Shrinks ps) :
    Acc Shrinks (p :: ps) := by
  induction p generalizing ps with
  | done a =>
    induction h with
    | intro ps _ ih =>
      refine .intro _ ?_
      rintro _ ⟨i, r, next, answer, hi, rfl⟩
      cases i with
      | zero => simp at hi
      | succ i => exact ih _ ⟨i, r, next, answer, hi, rfl⟩
  | ask r next ihp =>
    induction h with
    | intro ps hps ih =>
      refine .intro _ ?_
      rintro _ ⟨i, r, next, answer, hi, rfl⟩
      cases i with
      | zero =>
        rw [List.getElem?_cons_zero, Option.some.injEq] at hi
        cases hi
        exact ihp answer (.intro _ hps)
      | succ i => exact ih _ ⟨i, r, next, answer, hi, rfl⟩

theorem acc_shrinks (ps : List (Program α)) : Acc Shrinks ps := by
  induction ps with
  | nil =>
    refine .intro _ ?_
    rintro _ ⟨i, r, next, answer, hi, -⟩
    simp at hi
  | cons p ps ih => exact acc_cons p ih

/-- No interleaving goes on for ever. -/
theorem wellFounded_step : WellFounded fun s' s : Sharing α => Step s s' :=
  Subrelation.wf (r := InvImage Shrinks Sharing.programs)
    (fun {_ _} h => by cases h with | answer h => exact ⟨_, _, _, _, h, rfl⟩)
    (InvImage.wf _ ⟨acc_shrinks⟩)

/-- An interleaving is over only when all programs have ended. -/
theorem ended_or_step (s : Sharing α) : s.Ended ∨ ∃ s', s.Step s' := by
  by_cases h : ∃ s', s.Step s'
  · exact .inr h
  · refine .inl fun p hp => ?_
    obtain ⟨i, hi⟩ := List.mem_iff_getElem?.1 hp
    cases p with
    | done a => exact ⟨a, rfl⟩
    | ask r next => exact absurd ⟨_, .answer hi⟩ h

/-- Every interleaving can be gone on with until all programs have ended. -/
theorem reaches_ended (s : Sharing α) : ∃ s', s.Reaches s' ∧ s'.Ended := by
  induction s using wellFounded_step.induction with
  | _ s ih =>
    rcases s.ended_or_step with h | ⟨s', hs⟩
    · exact ⟨s, .refl, h⟩
    · obtain ⟨s'', hr, he⟩ := ih s' hs
      exact ⟨s'', .head hs hr, he⟩

/-! ### What holds in all interleavings -/

/-- Programs that keep to `R` each, and expect no more than `R` of each other, meet their
postconditions in all interleavings. -/
theorem meets {I : World → Prop} {R : World → World → Prop} {Q : Nat → α → World → Prop}
    (refl : ∀ w, R w w) (trans : ∀ u v w, R u v → R v w → R u w) {s s' : Sharing α}
    (h : s.Reaches s') (hi : I s.world)
    (hm : ∀ (i : Nat) (p : Program α), s.programs[i]? = some p →
      ∃ w, R w s.world ∧ p.Meets I R R (Q i) w) :
    I s'.world ∧ ∀ (i : Nat) (p : Program α), s'.programs[i]? = some p →
      ∃ w, R w s'.world ∧ p.Meets I R R (Q i) w := by
  induction h with
  | refl => exact ⟨hi, hm⟩
  | tail _ hs ih =>
    cases hs with
    | @answer w ps j r next hj =>
      obtain ⟨hiw, hps⟩ := ih
      obtain ⟨u, hu, hnext⟩ := hps j _ hj
      obtain ⟨h1, h2, h3⟩ := hnext w hu hiw
      refine ⟨h1, fun i p hp => ?_⟩
      rcases program_set hj hp with ⟨rfl, rfl⟩ | ⟨-, hp⟩
      · exact ⟨_, refl _, h3⟩
      · obtain ⟨v, hv, hmv⟩ := hps i p hp
        exact ⟨v, trans _ _ _ hv h2, hmv⟩

end Sharing

end Views
