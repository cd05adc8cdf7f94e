import Views.Proofs.Files.Lookup
import Views.Proofs.Registration

/-!
# Names and files of partials

A scan makes the names of partials from paths, by dropping the ending, and a marker makes a path
from a name, by adding the ending. The two are inverse to each other as long as no backslash is
involved (`partialName_inverse`): a name has forward slashes only, whatever the path has, so a file
with a backslash in its path is out of reach for markers and shares its name with the file that has
slashes there, if there is one (`partialName_backslash`).
-/

set_option autoImplicit false

namespace Views

/-! ## Listings -/

namespace Files

variable {t : FileTree} {ending path : String} {s : Stand} {paths : List String}
  {enter : Stand → List (String × Entry) → Except ViewError (List String)}

/-- What is listed are paths that end in the ending. -/
def Ending (ending : String) (listed : Except ViewError (List String)) : Prop :=
  ∀ paths, listed = .ok paths → ∀ path ∈ paths, ending.toList <:+ path.toList

theorem Ending.error (err : ViewError) : Ending ending (.error err) := nofun

theorem Ending.file (name : String) : Ending ending (.ok (s.file ending name)) := by
  rintro _ ⟨⟩ path hp
  unfold Stand.file at hp
  split at hp
  · rename_i hn
    obtain rfl := List.mem_singleton.1 hp
    exact (hasEnding_iff.1 hn).trans (suffix_join s.relative name)
  · cases hp

theorem listLink_ending (henter : ∀ s entries, Ending ending (enter s entries)) (name : String) :
    Ending ending (listLink t ending enter s name) := by
  unfold listLink
  simp only
  split
  · exact .error _
  · split
    · exact .error _
    · split
      · exact .error _
      · exact henter _ _
  · exact .file name
  · exact .error _

mutual

theorem listEntry_ending (henter : ∀ s entries, Ending ending (enter s entries)) (s : Stand)
    (name : String) : (e : Entry) → Ending ending (listEntry t ending enter s name e)
  | .file _ => by rw [listEntry]; exact .file name
  | .guarded _ entries => by
    rw [listEntry]
    split
    · exact .error _
    · exact listEntries_ending henter _ entries
  | .link _ => by rw [listEntry]; exact listLink_ending henter name

theorem listEntries_ending (henter : ∀ s entries, Ending ending (enter s entries)) (s : Stand) :
    (entries : List (String × Entry)) → Ending ending (listEntries t ending enter s entries)
  | [] => by rintro _ ⟨⟩ _ ⟨⟩
  | (name, e) :: rest => by
    have hhere := listEntry_ending henter s name e
    have hmore := listEntries_ending henter s rest
    rw [listEntries]
    intro paths hpaths path hp
    cases hh : listEntry t ending enter s name e with
    | error err => rw [hh] at hpaths; cases hpaths
    | ok here =>
      cases hm : listEntries t ending enter s rest with
      | error err => rw [hh, hm] at hpaths; cases hpaths
      | ok more =>
        rw [hh, hm] at hpaths
        cases hpaths
        rcases List.mem_append.1 hp with hp | hp
        · exact hhere here hh path hp
        · exact hmore more hm path hp

end

theorem listBehind_ending (links : Nat) (s : Stand) (entries : List (String × Entry)) :
    Ending ending (listBehind t ending links s entries) := by
  induction links generalizing s entries with
  | zero => exact .error _
  | succ links ih => exact listEntries_ending ih s entries

/-- **Every path in a listing of a directory ends in the ending.** -/
theorem list_ending (hdir : t.isDirectory path = true) (h : t.list path ending = .ok paths) :
    ∀ p ∈ paths, ending.toList <:+ p.toList := by
  unfold FileTree.isDirectory at hdir
  split at hdir
  · rename_i place access entries hfind
    rw [FileTree.list, hfind] at h
    dsimp only at h
    split at h
    · exact listBehind_ending _ _ _ paths h
    · split at h <;> cases h
  · cases hdir

end Files

/-! ## Names -/

namespace PartialSource

variable {s : PartialSource} {path p q : String}

theorem length_pos_of_mem {text : String} {c : Char} (h : c ∈ text.toList) : 0 < text.length := by
  rw [← String.length_toList]
  exact List.length_pos_of_mem h

/-- What a name leaves out of a path with forward slashes. -/
def dropped (extname : String) : String := if '\\' ∈ extname.toList then "" else extname

theorem forwardSlashes_eq (h : s.extname.toList <:+ path.toList) :
    Files.forwardSlashes path = s.partialName path ++ dropped s.extname := by
  unfold partialName dropped
  split
  · rename_i hb
    have he : ¬ Files.hasEnding (Files.forwardSlashes path) s.extname = true := fun he =>
      Engine.backslash_notMem_forwardSlashes path ((Files.hasEnding_iff.1 he).subset hb)
    rw [Files.dropEnding, if_neg he, String.append_empty]
  · rename_i hb
    obtain ⟨base, hbase⟩ := h
    obtain rfl : String.ofList base ++ s.extname = path := by
      rw [← String.toList_inj, String.toList_append, String.toList_ofList, hbase]
    rw [Engine.forwardSlashes_append, Engine.forwardSlashes_of_notMem hb, Engine.dropEnding_append]

/-- Paths have one name iff they differ only in which way their slashes lean. -/
theorem partialName_inj (hp : s.extname.toList <:+ p.toList) (hq : s.extname.toList <:+ q.toList) :
    s.partialName p = s.partialName q ↔ Files.forwardSlashes p = Files.forwardSlashes q := by
  rw [forwardSlashes_eq hp, forwardSlashes_eq hq]
  exact (String.append_left_inj _).symm

/-- A name and the ending make up the path again iff the path has no backslash. -/
theorem partialName_append_iff (h : s.extname.toList <:+ path.toList) :
    s.partialName path ++ s.extname = path ↔ '\\' ∉ path.toList := by
  have hsplit := forwardSlashes_eq h
  by_cases hb : '\\' ∈ s.extname.toList
  · rw [dropped, if_pos hb, String.append_empty] at hsplit
    refine iff_of_false (fun he => ?_) fun hn => hn (h.subset hb)
    -- The ending is not dropped, so the path would be longer than itself.
    have hlength := congrArg String.length he
    have hpos := length_pos_of_mem hb
    rw [← hsplit, String.length_append, Files.forwardSlashes, String.length_map] at hlength
    omega
  · rw [dropped, if_neg hb] at hsplit
    rw [← hsplit]
    refine ⟨fun he => he ▸ Engine.backslash_notMem_forwardSlashes path, fun hn => ?_⟩
    exact Engine.forwardSlashes_of_notMem hn

theorem partialName_marked_iff {text name : String} (h : name ∈ Markers.partialNames text) :
    s.partialName (name ++ s.extname) = name ↔ '\\' ∉ s.extname.toList := by
  rw [Engine.partialName_marked s (Engine.marked_of_mem_partialNames h), Engine.ending]
  split
  · rename_i hb
    refine iff_of_false (fun he => ?_) fun hn => hn hb
    have hlength := congrArg String.length he
    have hpos := length_pos_of_mem hb
    rw [String.length_append, Files.forwardSlashes, String.length_map] at hlength
    omega
  · rename_i hb
    exact iff_of_true String.append_empty hb

/-! ## Names and files -/

variable {w : World} {paths : List String}

/-- Registering one name visits one file. -/
theorem register_name (hen : s.enabled = true) (name : String) :
    let run := (s.register (.names [name])).run w
    run.steps = s.visit w.files (name ++ s.extname) ∧
      run.world = w.defineAll (s.fileAt w.files (name ++ s.extname)).toList := by
  rw [register, registerNamed_run hen, List.map_singleton, loaded_cons, List.takeWhile_cons,
    List.dropWhile_cons, gives]
  cases s.fileAt w.files (name ++ s.extname) <;> simp

/-- **Names lead back to files.** The name of a file that a scan lists, with the ending, is its path
again iff there is no backslash in the path, and then registering the name does with the file what
the scan does with it. Files have one name iff their paths differ only in which way the slashes
lean. The name in a marker is the name of the partial iff there is no backslash in the ending. -/
theorem partialName_inverse (hdir : w.files.isDirectory s.root = true)
    (hl : w.files.list s.root s.extname = .ok paths) :
    (∀ p ∈ paths, s.partialName p ++ s.extname = p ↔ '\\' ∉ p.toList) ∧
    (∀ p ∈ paths, '\\' ∉ p.toList →
      let run := (s.register (.names [s.partialName p])).run w
      run.steps = s.visit w.files p ∧ run.world = w.defineAll (s.fileAt w.files p).toList ∧
        (p ∈ paths.takeWhile (s.gives w.files) →
          run.steps <:+: ((s.register .directory).run w).steps)) ∧
    (∀ p ∈ paths, ∀ q ∈ paths, s.partialName p = s.partialName q ↔
      Files.forwardSlashes p = Files.forwardSlashes q) ∧
    ∀ text, ∀ name ∈ Markers.partialNames text,
      (s.partialName (name ++ s.extname) = name ↔ '\\' ∉ s.extname.toList) := by
  have hends := Files.list_ending hdir hl
  have hen : s.enabled = true := bne_iff_ne.2 (Files.FileTree.ne_empty_of_isDirectory hdir)
  refine ⟨fun p hp => partialName_append_iff (hends p hp), fun p hp hn => ?_,
    fun p hp q hq => partialName_inj (hends p hp) (hends q hq), fun text name hname =>
      partialName_marked_iff hname⟩
  obtain ⟨hsteps, hworld⟩ := register_name (w := w) hen (s.partialName p)
  rw [(partialName_append_iff (hends p hp)).2 hn] at hsteps hworld
  refine ⟨hsteps, hworld, fun hdone => ?_⟩
  rw [hsteps, (register_directory hen hl).steps]
  have hvisited := List.mem_append_left ((paths.dropWhile (s.gives w.files)).take 1) hdone
  refine List.IsInfix.trans ?_ (List.infix_append _ _ _)
  rw [List.flatMap_def]
  exact List.infix_of_mem_flatten (List.mem_map_of_mem hvisited)

/-- Nothing but forward slashes. -/
theorem partialName_inverse_nested :
    let s : PartialSource := ⟨"p", ".hbs"⟩
    let files : Files.FileTree := ⟨.directory [("p", .directory
      [("a", .directory [("b.hbs", .file "1")]), ("c.hbs", .file "2")])], []⟩
    let w : World := ⟨Stores.fresh (Registry.new false true) true, files⟩
    files.isDirectory "p" = true ∧ files.list "p" ".hbs" = .ok ["a/b.hbs", "c.hbs"] ∧
      s.partialName "a/b.hbs" ++ ".hbs" = "a/b.hbs" ∧
      ((s.register (.names [s.partialName "a/b.hbs"])).run w).steps = s.visit files "a/b.hbs" ∧
      s.partialName "a/b.hbs" ≠ s.partialName "c.hbs" ∧ s.partialName ("n" ++ ".hbs") = "n" := by
  intro s files w
  have hdir : files.isDirectory "p" = true := by cbv
  have hlist : files.list "p" ".hbs" = .ok ["a/b.hbs", "c.hbs"] := by cbv
  have hmarker : "n" ∈ Markers.partialNames "{{> n}}" := by
    rw [show Markers.partialNames "{{> n}}" = ["n"] by cbv]
    exact List.mem_singleton_self _
  obtain ⟨hinverse, hregister, hnames, hmarked⟩ :=
    partialName_inverse (s := s) (w := w) hdir hlist
  have hslash : '\\' ∉ "a/b.hbs".toList := by decide
  refine ⟨hdir, hlist, (hinverse "a/b.hbs" (by simp)).2 hslash,
    (hregister "a/b.hbs" (by simp) hslash).1, ?_, (hmarked _ "n" hmarker).2 (by decide)⟩
  rw [Ne, hnames "a/b.hbs" (by simp) "c.hbs" (by simp),
    Engine.forwardSlashes_of_notMem hslash, Engine.forwardSlashes_of_notMem (by decide)]
  decide

/-- A backslash in a path is one character of a name in the directory. The file shares its name with
another one, which is the one that the name leads to; and with a backslash in the ending no name in
a marker is kept. -/
theorem partialName_backslash :
    (let s : PartialSource := ⟨"p", ".hbs"⟩
      let files : Files.FileTree := ⟨.directory [("p", .directory
        [("a", .directory [("b.hbs", .file "1")]), ("a\\b.hbs", .file "2")])], []⟩
      let w : World := ⟨Stores.fresh (Registry.new false true) true, files⟩
      files.isDirectory "p" = true ∧ files.list "p" ".hbs" = .ok ["a/b.hbs", "a\\b.hbs"] ∧
        s.partialName "a\\b.hbs" ++ ".hbs" ≠ "a\\b.hbs" ∧
        s.partialName "a/b.hbs" = s.partialName "a\\b.hbs" ∧
        ((s.register (.names [s.partialName "a\\b.hbs"])).run w).steps =
          s.visit files "a/b.hbs" ∧
        (((s.register .directory).run w).world.registry.templates.get? "a/b" =
          some (.mk (some "a/b") [(.text "2", none)]))) ∧
    let s : PartialSource := ⟨"p", "\\x"⟩
    "n" ∈ Markers.partialNames "{{> n}}" ∧ s.partialName ("n" ++ "\\x") = "n/x" := by
  have hname : PartialSource.partialName ⟨"p", ".hbs"⟩ "a\\b.hbs" = "a/b" := by cbv
  have hother : PartialSource.partialName ⟨"p", ".hbs"⟩ "a/b.hbs" = "a/b" := by cbv
  refine ⟨⟨by cbv, by cbv, ?_, hother.trans hname.symm, ?_, by cbv⟩, ?_, by cbv⟩
  · rw [hname]
    decide
  · rw [hname]
    exact (register_name (by decide) "a/b").1
  rw [show Markers.partialNames "{{> n}}" = ["n"] by cbv]
  exact List.mem_singleton_self _

end PartialSource

end Views
