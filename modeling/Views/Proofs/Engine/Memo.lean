import Views.Proofs.Engine.Tasks

/-!
# Paths that are kept

With caching a render looks for an entry only when the path of its view is kept, and a path that is
kept stays. So wherever there is an entry under a relative name, the path of its file is kept as
well, however renders interleave and whatever happens to the files (`Engine.memoized`).
-/

set_option autoImplicit false

namespace Views

theorem World.paths_perform {w : World} {name : String} (r : Request)
    (h : (w.paths.get? name).isSome = true) : ((w.perform r).2.paths.get? name).isSome = true := by
  rw [perform_world]
  cases r with
  | storePath other path =>
    show ((w.paths.insert other path).get? name).isSome = true
    rw [Table.get?_insert]
    split
    · rfl
    · exact h
  | _ => exact h

namespace Engine

variable {e : Engine} {base : Registry} {files : Files.FileTree} {tasks : List Task}
  {s : Sharing Task.Report} {log : List Happening} {w : World} {i : Nat}

/-- The path of a name is kept, if it is not absolute. -/
def Known (w : World) (name : String) : Prop :=
  Files.isAbsolute name = false → (w.paths.get? name).isSome = true

theorem Known.perform {name : String} (h : Known w name) (r : Request) :
    Known (w.perform r).2 name := fun ha => World.paths_perform r (h ha)

/-- The paths are kept of all names that were located, that were looked for in the cache, and that
have an entry. -/
structure Memoized (e : Engine) (log : List Happening) (w : World) : Prop where
  located : ∀ i name, e.Located (stepsOf i log) name → Known w name
  looked : ∀ i name found, .answered i ⟨.recallEntry name, found⟩ ∈ log → Known w name
  entries : ∀ name, (w.cache.get? name).isSome = true → Known w name

/-- What was located just now is known. -/
theorem known_of_located {past : List Step} {name : String} {r : Request}
    (hpast : e.Located past name → Known w name)
    (h : e.Located (past ++ [⟨r, (w.perform r).1⟩]) name) : Known (w.perform r).2 name := by
  cases h with
  | absolute h => exact fun ha => absurd (h.symm.trans ha) (by simp)
  | uncached h => exact (hpast (.uncached h)).perform r
  | @recalled path h =>
    rcases List.mem_append.1 h with h | h
    · exact (hpast (.recalled h)).perform r
    · obtain rfl := congrArg Sigma.fst (List.mem_singleton.1 h)
      have hpath : some path = w.paths.get? name := by
        simpa [World.perform_recallPath] using List.mem_singleton.1 h
      exact fun _ => World.paths_perform _ (hpath ▸ rfl)
  | @stored path h =>
    rcases List.mem_append.1 h with h | h
    · exact (hpast (.stored h)).perform r
    · obtain rfl := congrArg Sigma.fst (List.mem_singleton.1 h)
      intro _
      show ((w.paths.insert name path).get? name).isSome = true
      rw [Table.get?_insert_self]
      rfl

theorem Memoized.perform {X : List Step → Compiled → Fields → Scope → Prop}
    (h : e.Memoized log w) {r : Request} (hr : e.Warranted X (stepsOf i log) r) :
    e.Memoized (log ++ [.answered i ⟨r, (w.perform r).1⟩]) (w.perform r).2 := by
  constructor
  case located =>
    intro j name hj
    rw [stepsOf_append] at hj
    by_cases hij : i = j
    · subst hij
      rw [stepsOf_answered_self] at hj
      exact known_of_located (h.located i name) hj
    · rw [stepsOf_answered_ne hij, List.append_nil] at hj
      exact (h.located j name hj).perform r
  case looked =>
    intro j name found hm
    rcases List.mem_append.1 hm with hm | hm
    · exact (h.looked j name found hm).perform r
    · obtain ⟨-, hstep⟩ := Happening.answered.inj (List.mem_singleton.1 hm)
      obtain rfl := congrArg Sigma.fst hstep
      exact (h.located i name hr).perform _
  case entries =>
    intro name hs
    rcases Slot.get?_perform (.entry name) w r with hsame | ⟨x, hstored, -⟩
    · change (w.perform r).2.cache.get? name = w.cache.get? name at hsame
      exact (h.entries name (hsame ▸ hs)).perform r
    · -- The entry is stored by a task that has looked for it.
      obtain rfl : r = .storeEntry name x := congrArg Sigma.fst hstored
      exact (h.looked i name none (mem_stepsOf.1 hr.1)).perform _

theorem Memoized.edit (h : e.Memoized log w) (files : Files.FileTree) :
    e.Memoized (log ++ [.edited files]) { w with files } := by
  have hsteps (i : Nat) : stepsOf i (log ++ [.edited files]) = stepsOf i log := by simp
  constructor
  · exact fun i name hi => h.located i name (hsteps i ▸ hi)
  · exact fun i name found hm => h.looked i name found (by simpa using hm)
  · exact h.entries

/-- **Every relative name with an entry has its path kept**, which is that of its file. -/
theorem memoized (hon : e.config.caching = true) (h : (e.started base files tasks).Trace log s)
    {name : String} (hentry : (s.world.cache.get? name).isSome = true)
    (ha : Files.isAbsolute name = false) :
    s.world.paths.get? name = some (e.resolver.templatePath name) := by
  have hstart : e.Memoized [] (e.world base files) := by
    constructor
    · intro i name hl ha
      cases hl with
      | absolute h => cases h.symm.trans ha
      | uncached h => cases hon.symm.trans h
      | recalled h => cases h
      | stored h => cases h
    · exact fun i name found hm => by cases hm
    · intro name hs
      rw [show (e.world base files).cache.get? name = none from
        Slot.get?_empty (.entry name) e.config.caching] at hs
      cases hs
  obtain ⟨⟨hsane, hmemo⟩, -⟩ := kept (K := e.Memoized) h hstart
    (fun _ _ _ _ _ hK hr => hK.perform hr) fun _ _ files hK => hK.edit files
  obtain ⟨path, hpath⟩ := Option.isSome_iff_exists.1 (hmemo.entries name hentry ha)
  rw [hpath, hsane.paths name path hpath]

end Engine

end Views
