import Mathlib.Data.Finset.Card
import Views.Engine.Resolver
import Views.Proofs.Program.Run
import Views.Proofs.Table

/-!
# Resolving names again and again

What a resolver answers depends on the names that it has resolved so far and on the files of the
moment. With caching it keeps the path of every relative name that it has once resolved, and nothing
else (`Memo`), so it answers for such a name without looking; for any other relative name it looks
once, and that a file was missing is not kept (`resolve_history`).
-/

set_option autoImplicit false

namespace Views

/-- The paths that some steps look for, in order. -/
def probes (steps : List Step) : List String :=
  steps.filterMap fun
    | ⟨.probe path, _⟩ => some path
    | _ => none

namespace Resolver

/-- What happens around a resolver: a name is resolved, or the files change in any way. -/
inductive Event where
  | resolve (name : String)
  | change (files : Files.FileTree)

/-- The world of a resolver that has resolved nothing yet. -/
def start (r : Resolver) (registry : Registry) (files : Files.FileTree) : World :=
  ⟨Stores.fresh registry r.caching, files⟩

/-- The world after a history. -/
def live (r : Resolver) : List Event → World → World
  | [], w => w
  | .resolve name :: rest, w => r.live rest ((r.resolve name).run w).world
  | .change files :: rest, w => r.live rest { w with files }

/-- The names that are resolved successfully in a history, in order. -/
def successes (r : Resolver) : List Event → World → List String
  | [], _ => []
  | .resolve name :: rest, w =>
    let run := (r.resolve name).run w
    (if run.result.isSome then [name] else []) ++ r.successes rest run.world
  | .change files :: rest, w => r.successes rest { w with files }

variable {r : Resolver} {w : World} {name : String}

/-! ## One resolution -/

theorem resolve_absolute (ha : Files.isAbsolute name = true) :
    (r.resolve name).run w = ⟨some (name ++ r.extname), w, []⟩ := by
  rw [resolve, if_pos ha]
  rfl

/-- What is done about a relative name. -/
theorem resolve_eq (ha : Files.isAbsolute name = false) :
    r.resolve name = .ask (.recallPath name) fun
      | some path => .done (some path)
      | none => .ask (.probe (r.templatePath name)) fun there =>
        if there then
          if r.caching then .ask (.storePath name (r.templatePath name)) fun _ =>
            .done (some (r.templatePath name))
          else .done (some (r.templatePath name))
        else .done none := by
  rw [resolve, if_neg (by simp [ha])]
  show Program.ask _ _ = _
  congr

theorem resolve_known (ha : Files.isAbsolute name = false) {path : String}
    (hp : w.paths.get? name = some path) :
    (r.resolve name).run w = ⟨some path, w, [⟨.recallPath name, some path⟩]⟩ := by
  rw [resolve_eq ha, Program.run_ask, World.perform_recallPath, hp]
  rfl

theorem resolve_missing (ha : Files.isAbsolute name = false) (hp : w.paths.get? name = none)
    (hf : w.files.isFile (r.templatePath name) = false) :
    (r.resolve name).run w =
      ⟨none, w, [⟨.recallPath name, none⟩, ⟨.probe (r.templatePath name), false⟩]⟩ := by
  have hprobe : w.perform (.probe (r.templatePath name)) = (false, w) := congrArg (·, w) hf
  rw [resolve_eq ha, Program.run_ask, World.perform_recallPath, hp]
  simp only [Program.run_ask, hprobe]
  rfl

/-- A path that is found is kept, if there is caching. -/
theorem resolve_found (ha : Files.isAbsolute name = false) (hp : w.paths.get? name = none)
    (hf : w.files.isFile (r.templatePath name) = true) :
    (r.resolve name).run w = ⟨some (r.templatePath name),
      if r.caching then { w with paths := w.paths.insert name (r.templatePath name) } else w,
      [⟨.recallPath name, none⟩, ⟨.probe (r.templatePath name), true⟩] ++
        if r.caching then [⟨.storePath name (r.templatePath name), ()⟩] else []⟩ := by
  have hprobe : w.perform (.probe (r.templatePath name)) = (true, w) := congrArg (·, w) hf
  rw [resolve_eq ha, Program.run_ask, World.perform_recallPath, hp]
  simp only [Program.run_ask, hprobe, if_true]
  cases r.caching <;> rfl

/-! ## Histories -/

/-- The paths are kept of the relative names that were resolved before, if there is caching, and no
others. -/
structure Memo (r : Resolver) (known : List String) (w : World) : Prop where
  ordered : w.paths.Ordered
  entries : ∀ key path, w.paths.get? key = some path ↔ r.caching = true ∧
    Files.isAbsolute key = false ∧ key ∈ known ∧ path = r.templatePath key

namespace Memo

variable {known : List String}

theorem start (r : Resolver) (registry : Registry) (files : Files.FileTree) :
    r.Memo [] (r.start registry files) :=
  ⟨List.Pairwise.nil, fun key path => by simp [Resolver.start, Stores.fresh]⟩

theorem get?_eq_none (h : r.Memo known w) {key : String} (hk : ¬ (r.caching = true ∧ key ∈ known)) :
    w.paths.get? key = none := by
  cases hp : w.paths.get? key with
  | none => rfl
  | some path =>
    obtain ⟨hc, -, hm, -⟩ := (h.entries key path).1 hp
    exact absurd ⟨hc, hm⟩ hk

/-- An absolute name is no key of the memo. -/
theorem absolute (h : r.Memo known w) (ha : Files.isAbsolute name = true) :
    r.Memo (known ++ [name]) w := by
  refine ⟨h.ordered, fun key path => (h.entries key path).trans ?_⟩
  have hne (hk : Files.isAbsolute key = false) : key ≠ name := by
    rintro rfl
    cases ha.symm.trans hk
  constructor
  · rintro ⟨hc, hk, hm, hp⟩
    exact ⟨hc, hk, List.mem_append_left _ hm, hp⟩
  · rintro ⟨hc, hk, hm, hp⟩
    exact ⟨hc, hk, by simpa [hne hk] using hm, hp⟩

/-- A name whose path is kept was resolved before. -/
theorem again (h : r.Memo known w) {path : String} (hp : w.paths.get? name = some path) :
    r.Memo (known ++ [name]) w := by
  have hm := ((h.entries name path).1 hp).2.2.1
  refine ⟨h.ordered, fun key path => (h.entries key path).trans ?_⟩
  have hiff : key ∈ known ++ [name] ↔ key ∈ known := by
    simp only [List.mem_append, List.mem_singleton, or_iff_left_iff_imp]
    rintro rfl
    exact hm
  simp only [hiff]

/-- A relative name that is found is kept, if there is caching. -/
theorem store (h : r.Memo known w) (ha : Files.isAbsolute name = false) :
    r.Memo (known ++ [name])
      (if r.caching then { w with paths := w.paths.insert name (r.templatePath name) } else w) := by
  cases hc : r.caching with
  | false =>
    refine ⟨h.ordered, fun key path => (h.entries key path).trans ?_⟩
    simp [hc]
  | true =>
    refine ⟨h.ordered.insert _ _, fun key path => ?_⟩
    show (w.paths.insert name (r.templatePath name)).get? key = some path ↔ _
    rw [Table.get?_insert]
    by_cases hk : name = key
    · subst hk
      simp [hc, ha, eq_comm]
    · have hk' : key ≠ name := fun he => hk he.symm
      rw [if_neg hk, h.entries]
      simp [hc, hk']

/-- A resolution keeps the path of its name if it succeeds, and changes nothing else. -/
theorem resolve (h : r.Memo known w) (name : String) :
    let run := (r.resolve name).run w
    r.Memo (known ++ if run.result.isSome then [name] else []) run.world := by
  intro run
  cases ha : Files.isAbsolute name with
  | true =>
    have hrun : run = _ := resolve_absolute ha
    exact hrun ▸ h.absolute ha
  | false =>
    cases hp : w.paths.get? name with
    | some path =>
      have hrun : run = _ := resolve_known ha hp
      exact hrun ▸ h.again hp
    | none =>
      cases hf : w.files.isFile (r.templatePath name) with
      | false =>
        have hrun : run = _ := resolve_missing ha hp hf
        rw [hrun]
        simpa using h
      | true =>
        have hrun : run = _ := resolve_found ha hp hf
        exact hrun ▸ h.store ha

theorem change (h : r.Memo known w) (files : Files.FileTree) : r.Memo known { w with files } :=
  ⟨h.ordered, h.entries⟩

theorem live (h : r.Memo known w) (history : List Event) :
    r.Memo (known ++ r.successes history w) (r.live history w) := by
  induction history generalizing known w with
  | nil => simpa [successes, Resolver.live] using h
  | cons event rest ih =>
    cases event with
    | resolve name =>
      rw [successes, ← List.append_assoc]
      exact ih (h.resolve name)
    | change files => exact ih (h.change files)

/-- There is one path for every name. -/
theorem length_paths (h : r.Memo known w) : w.paths.length =
    if r.caching then (known.filter fun key => !Files.isAbsolute key).toFinset.card else 0 := by
  have hkeys : w.paths.keys.Nodup :=
    (List.pairwise_map.2 h.ordered).imp fun hlt => (Std.lt_irrefl <| · ▸ hlt)
  have hmem (key : String) : key ∈ w.paths.keys ↔ ∃ path, w.paths.get? key = some path := by
    refine ⟨fun hk => ?_, fun ⟨path, hp⟩ => Table.mem_keys_of_get? hp⟩
    obtain ⟨⟨k, path⟩, hm, rfl⟩ := List.mem_map.1 hk
    exact ⟨path, h.ordered.get?_of_mem hm⟩
  have hlength : w.paths.length = w.paths.keys.toFinset.card := by
    rw [List.toFinset_card_of_nodup hkeys, Table.keys, List.length_map]
  rw [hlength]
  split
  · rename_i hc
    congr 1
    ext key
    simp only [List.mem_toFinset, hmem, h.entries, List.mem_filter, hc, true_and,
      Bool.not_eq_true']
    exact ⟨fun ⟨path, ha, hk, _⟩ => ⟨hk, ha⟩, fun ⟨hk, ha⟩ => ⟨_, ha, hk, rfl⟩⟩
  · rename_i hc
    rw [Finset.card_eq_zero, Finset.eq_empty_iff_forall_notMem]
    intro key hk
    obtain ⟨path, hp⟩ := (hmem key).1 (List.mem_toFinset.1 hk)
    exact hc ((h.entries key path).1 hp).1

end Memo

/-- **Resolving after any history.** Absolute names bypass both the memo and the files; with caching
a relative name that was resolved before is answered from the memo alone; any other name is looked
for once, and a miss leaves no trace. The memo holds exactly the relative names that were resolved
before, each with its own path, and no later event changes an entry. -/
theorem resolve_history (r : Resolver) (registry : Registry) (files : Files.FileTree)
    (history : List Event) :
    let w := r.live history (r.start registry files)
    let known := r.successes history (r.start registry files)
    (∀ name, Files.isAbsolute name = true →
      (r.resolve name).run w = ⟨some (name ++ r.extname), w, []⟩) ∧
    (∀ name, Files.isAbsolute name = false → r.caching = true → name ∈ known →
      (r.resolve name).run w = ⟨some (r.templatePath name), w,
        [⟨.recallPath name, some (r.templatePath name)⟩]⟩) ∧
    (∀ name, Files.isAbsolute name = false → ¬ (r.caching = true ∧ name ∈ known) →
      let run := (r.resolve name).run w
      probes run.steps = [r.templatePath name] ∧
        run.result = (if w.files.isFile (r.templatePath name) then some (r.templatePath name)
          else none) ∧
        (run.result = none → run.world = w)) ∧
    (∀ key path, w.paths.get? key = some path ↔ r.caching = true ∧
      Files.isAbsolute key = false ∧ key ∈ known ∧ path = r.templatePath key) ∧
    (∀ key path more, w.paths.get? key = some path →
      (r.live more w).paths.get? key = some path) ∧
    w.paths.length =
      if r.caching then (known.filter fun key => !Files.isAbsolute key).toFinset.card else 0 := by
  intro w known
  have hmemo : r.Memo known w := (Memo.start r registry files).live history
  refine ⟨fun name ha => resolve_absolute ha, fun name ha hc hk => ?_, fun name ha hk => ?_,
    hmemo.entries, fun key path more hp => ?_, hmemo.length_paths⟩
  · exact resolve_known ha ((hmemo.entries _ _).2 ⟨hc, ha, hk, rfl⟩)
  · have hp := hmemo.get?_eq_none hk
    cases hf : w.files.isFile (r.templatePath name) with
    | false =>
      intro run
      have hrun : run = _ := resolve_missing ha hp hf
      rw [hrun]
      exact ⟨rfl, rfl, fun _ => rfl⟩
    | true =>
      intro run
      have hrun : run = _ := resolve_found ha hp hf
      rw [hrun]
      refine ⟨?_, rfl, fun hnone => nomatch hnone⟩
      cases r.caching <;> rfl
  · obtain ⟨hc, ha, hk, rfl⟩ := (hmemo.entries key path).1 hp
    exact ((hmemo.live more).entries _ _).2 ⟨hc, ha, List.mem_append_left _ hk, rfl⟩

/-- A path that was found once is still given after the file is gone. -/
theorem resolve_history_removed :
    let r : Resolver := ⟨"v", "v/layouts", ".hbs", true⟩
    let there : Files.FileTree := ⟨.directory [("v", .directory [("a.hbs", .file (some ""))])], []⟩
    let w := r.live [.resolve "a", .change .empty] (r.start (.new false true) there)
    (r.resolve "a").run w = ⟨some (r.templatePath "a"), w,
        [⟨.recallPath "a", some (r.templatePath "a")⟩]⟩ ∧
      w.files.isFile (r.templatePath "a") = false := by
  intro r there w
  have hknown : r.successes [.resolve "a", .change .empty] (r.start (.new false true) there) =
      ["a"] := by cbv
  refine ⟨(resolve_history r (.new false true) there [.resolve "a", .change .empty]).2.1 "a"
    (by cbv) rfl ?_, by cbv⟩
  rw [hknown]
  exact List.mem_singleton_self "a"

end Resolver

end Views
