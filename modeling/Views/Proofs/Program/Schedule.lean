import Views.Proofs.Program.Trace

/-!
# Schedules

A schedule fixes an interleaving: whose requests are answered next, how many of them, and when the
files change. Following it is a computation, and what it gives is a trace (`Sharing.follow_trace`).
-/

set_option autoImplicit false

namespace Views

/-- What is next in a schedule. -/
inductive Turn where
  /-- Some requests of one of the programs are answered, or as many as it still has. -/
  | answer (i n : Nat)
  /-- Somebody changes the files. -/
  | edit (files : Files.FileTree)

namespace Sharing

variable {α : Type}

/-- The next requests of one of the programs are answered. -/
def answer (i : Nat) : Nat → Sharing α → List Happening × Sharing α
  | 0, s => ([], s)
  | n + 1, s =>
    match s.programs[i]? with
    | some (.ask r next) =>
      let (answer, w) := s.world.perform r
      let (log, s) := Sharing.answer i n ⟨w, s.programs.set i (next answer)⟩
      (.answered i ⟨r, answer⟩ :: log, s)
    | _ => ([], s)

/-- What happens when a schedule is followed, and the state after it. -/
def follow (s : Sharing α) : List Turn → List Happening × Sharing α
  | [] => ([], s)
  | .answer i n :: turns =>
    let (log, s) := s.answer i n
    let (rest, s) := s.follow turns
    (log ++ rest, s)
  | .edit files :: turns =>
    let (rest, s) := follow ⟨{ s.world with files }, s.programs⟩ turns
    (.edited files :: rest, s)

theorem Happens.trace {s s' : Sharing α} {x : Happening} (h : s.Happens x s') :
    s.Trace [x] s' := .next .start h

theorem answer_trace (i n : Nat) (s : Sharing α) :
    s.Trace (s.answer i n).1 (s.answer i n).2 := by
  induction n generalizing s with
  | zero => exact .start
  | succ n ih =>
    unfold answer
    split
    · rename_i r next hi
      exact (Happens.answer hi).trace.trans (ih _)
    · exact .start

/-- **What happens when a schedule is followed is a trace.** -/
theorem follow_trace (turns : List Turn) (s : Sharing α) :
    s.Trace (s.follow turns).1 (s.follow turns).2 := by
  induction turns generalizing s with
  | nil => exact .start
  | cons turn turns ih =>
    cases turn with
    | answer i n => exact (answer_trace i n s).trans (ih _)
    | edit files => exact (Happens.edit files).trace.trans (ih _)

theorem edited_notMem_answer (i n : Nat) (s : Sharing α) (files : Files.FileTree) :
    .edited files ∉ (s.answer i n).1 := by
  induction n generalizing s with
  | zero => exact List.not_mem_nil
  | succ n ih =>
    unfold answer
    split
    · exact List.not_mem_cons_of_ne_of_not_mem nofun (ih _)
    · exact List.not_mem_nil

/-- The files change where the schedule changes them and nowhere else. -/
theorem edit_of_edited {turns : List Turn} {s : Sharing α} {files : Files.FileTree}
    (h : .edited files ∈ (s.follow turns).1) : .edit files ∈ turns := by
  induction turns generalizing s with
  | nil => cases h
  | cons turn turns ih =>
    cases turn with
    | answer i n =>
      obtain h | h := List.mem_append.1 h
      · exact absurd h (edited_notMem_answer i n s files)
      · exact List.mem_cons_of_mem _ (ih h)
    | edit files' =>
      cases h with
      | head => exact List.mem_cons_self
      | tail _ h => exact List.mem_cons_of_mem _ (ih h)

end Sharing

end Views
