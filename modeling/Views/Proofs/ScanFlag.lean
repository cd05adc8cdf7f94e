import Views.Proofs.Engine.ScanSteps
import Views.Proofs.Engine.Tasks
import Views.Proofs.Templates

/-!
# The flag of a finished scan

An engine remembers by a flag that the directory of its partials was scanned. Several scans can be
on the way at once, some of which fail, while partials are registered by name and files change
(`Engine.begun`). The flag is set only at the end of a finished scan and is never reset, and what
was registered stays registered (`Sharing.Trace.hasTemplate`), so the flag is right at any time
(`PartialSource.Truthful`). What follows for everyone that sees to the partials is
`Engine.scan_flag_truthful`.
-/

set_option autoImplicit false

namespace Views

open Program

/-! ## The flag -/

theorem World.scanned_perform (w : World) (r : Request) :
    (w.perform r).2.scanned = true ↔ w.scanned = true ∨ r = .storeScan := by
  rw [perform_world]
  cases r with
  | storeScan => exact iff_of_true rfl (.inr rfl)
  | _ => exact ⟨.inl, fun h => h.resolve_right nofun⟩

namespace Sharing.Trace

variable {α : Type} {s s' : Sharing α} {log : List Happening}

/-- The flag is never reset. -/
theorem scanned (h : s.Trace log s') (hs : s.world.scanned = true) :
    s'.world.scanned = true := by
  induction h with
  | start => exact hs
  | next _ hx ih =>
    cases hx with
    | answer hi => exact (World.scanned_perform _ _).2 (.inl ih)
    | edit files => exact ih

/-- A program that nothing was answered is where it was. -/
theorem untouched {i : Nat} (h : s.Trace log s') (hi : stepsOf i log = []) :
    s'.programs[i]? = s.programs[i]? := by
  induction h with
  | start => rfl
  | next _ hx ih =>
    rw [stepsOf_append, List.append_eq_nil_iff] at hi
    cases hx with
    | @answer w ps j r next hj =>
      have hij : j ≠ i := by
        rintro rfl
        cases stepsOf_answered_self.symm.trans hi.2
      exact (List.getElem?_set_ne hij).trans (ih hi.1)
    | edit files => exact ih hi.1

/-- As long as nobody changes the files, a directory is listed as it was at the start. -/
theorem list_eq {i : Nat} {root ending : String} {listed : Except ViewError (List String)}
    (h : s.Trace log s') (hedits : ∀ files, .edited files ∉ log)
    (hm : .answered i ⟨.list root ending, listed⟩ ∈ log) :
    s.world.files.list root ending = listed := by
  obtain ⟨before, after, rfl⟩ := List.append_of_mem hm
  obtain ⟨m, h, h'⟩ := h.split
  obtain ⟨-, -, -, ha, -⟩ := h'.asked
  rw [← h.files_eq fun files hf => hedits files (List.mem_append_left _ hf)]
  exact ha.symm

/-- What was registered stays registered. -/
theorem hasTemplate {i : Nat} {name source : String} (h : s.Trace log s')
    (hm : .answered i ⟨.registerPartial name source, .ok ()⟩ ∈ log) :
    s'.world.registry.hasTemplate name = true := by
  have hstands := h.stands name
  cases hl : lastStored log name with
  | none =>
    cases (lastStored_eq_none.1 hl _ hm).symm.trans (if_pos rfl)
  | some entry =>
    rw [hl] at hstands
    obtain ⟨t, -, ht⟩ := hstands
    exact Registry.hasTemplate_iff.2 ⟨t, ht⟩

end Sharing.Trace

namespace PartialSource

variable {s : PartialSource}

/-- Files are registered under their names. -/
def Available (s : PartialSource) (paths : List String) (r : Registry) : Prop :=
  ∀ path ∈ paths, r.hasTemplate (s.partialName path) = true

theorem Finished.available {α : Type} {m m' : Sharing α} {log : List Happening} {i : Nat}
    {paths : List String} (hf : s.Finished paths (stepsOf i log)) (h : m.Trace log m') :
    s.Available paths m'.world.registry := by
  intro path hp
  obtain ⟨registered, hr, hi⟩ := hf
  obtain ⟨source, hm⟩ := hr.mem hp
  have hstep := hi.subset (List.mem_cons_of_mem _ (List.mem_append_left _ hm))
  exact h.hasTemplate (mem_stepsOf.1 hstep)

theorem Finished.listed {paths : List String} {log : List Happening} {i : Nat}
    (hf : s.Finished paths (stepsOf i log)) :
    .answered i ⟨.list s.root s.extname, .ok paths⟩ ∈ log := by
  obtain ⟨registered, -, hi⟩ := hf
  exact mem_stepsOf.1 (hi.subset List.mem_cons_self)

/-- What has happened so far accounts for the flag. -/
structure Truthful (s : PartialSource) (log : List Happening) (w : World) : Prop where
  finished : w.scanned = true → ∃ i paths, s.Finished paths (stepsOf i log)
  recalled : ∀ i, (⟨.recallScan, true⟩ : Step) ∈ stepsOf i log → w.scanned = true
  once : ∀ i, (listings (stepsOf i log)).length ≤ 1

/-- **The flag stays truthful** when a program that keeps to the rule has a request answered. -/
theorem Truthful.answered {log : List Happening} {w : World} {i : Nat} {r : Request}
    (h : s.Truthful log w) (hr : s.Scans (stepsOf i log) r) :
    s.Truthful (log ++ [.answered i ⟨r, (w.perform r).1⟩]) (w.perform r).2 := by
  refine ⟨fun hs => ?_, fun j hm => ?_, fun j => ?_⟩
  · rcases (World.scanned_perform w r).1 hs with hs | rfl
    · obtain ⟨j, paths, hf⟩ := h.finished hs
      exact ⟨j, paths, stepsOf_append ▸ hf.append _⟩
    · obtain ⟨paths, registered, hreg, hp⟩ := hr
      refine ⟨i, paths, ?_⟩
      rw [stepsOf_append, stepsOf_answered_self]
      exact .of_suffix hreg hp
  · rw [World.scanned_perform]
    refine .inl ?_
    rcases List.mem_append.1 (mem_stepsOf.1 hm) with hm | hm
    · exact h.recalled j (mem_stepsOf.2 hm)
    · -- Then this very step recalls the flag.
      obtain ⟨rfl, hstep⟩ := Happening.answered.inj (List.mem_singleton.1 hm)
      obtain ⟨rfl, hanswer⟩ := Sigma.mk.inj hstep
      exact (eq_of_heq hanswer).symm
  · rw [stepsOf_append]
    by_cases hij : i = j
    · subst hij
      rw [stepsOf_answered_self]
      exact hr.listings_le (h.once i)
    · rw [stepsOf_answered_ne hij, List.append_nil]
      exact h.once j

theorem Truthful.edited {log : List Happening} {w : World} (h : s.Truthful log w)
    (files : Files.FileTree) :
    s.Truthful (log ++ [.edited files]) { w with files } := by
  have hsame (i : Nat) : stepsOf i (log ++ [.edited files]) = stepsOf i log := by
    rw [stepsOf_append, stepsOf_edited, List.append_nil]
  exact ⟨by simpa only [hsame] using h.finished, by simpa only [hsame] using h.recalled,
    by simpa only [hsame] using h.once⟩

/-! ## Seeing to the partials when the flag is set -/

/-- Answers while the flag is set. -/
def Known : (r : Request) → r.Answer → Prop
  | .recallScan, known => known = true
  | _, _ => True

theorem ensureScanned_known : s.ensureScanned.Keeps Known
    (fun past r => past = [] ∧ r = .recallScan) (fun _ _ => True) [] := by
  unfold ensureScanned
  split
  · refine ⟨⟨rfl, rfl⟩, fun known hk => ?_⟩
    obtain rfl : known = true := hk
    trivial
  · trivial

/-- **Once the flag is set, seeing to the partials only looks at it.** -/
theorem ensureScanned_once {m m' : Sharing Unit} {log : List Happening} {i : Nat}
    (h : m.Trace log m') (hm : m.world.scanned = true)
    (hi : m.programs[i]? = some s.ensureScanned) :
    stepsOf i log = [] ∨ stepsOf i log = [⟨.recallScan, true⟩] := by
  refine (h.keeps (A := Known) (D := fun j past r => j = i → past = [] ∧ r = .recallScan)
    (Q := fun _ _ _ => True)
    (J := fun log w => w.scanned = true ∧
      (stepsOf i log = [] ∨ stepsOf i log = [⟨.recallScan, true⟩]))
    ⟨hm, .inl rfl⟩ (fun j p hp => ?_) (fun log w j r hJ hr => ?_)
    fun log w files hJ => ?_).1.2
  · by_cases hj : j = i
    · subst hj
      obtain rfl := Option.some.inj (hi.symm.trans hp)
      exact ensureScanned_known.weaken (fun _ _ => id) (fun _ _ hr _ => hr) fun _ _ => id
    · exact .of_forall (fun _ _ hji => absurd hji hj) _ _
  · refine ⟨?_, (World.scanned_perform w r).2 (.inl hJ.1), ?_⟩
    · cases r with
      | recallScan => exact hJ.1
      | _ => trivial
    · rw [stepsOf_append]
      by_cases hj : j = i
      · subst hj
        obtain ⟨hnil, rfl⟩ := hr rfl
        rw [hnil, stepsOf_answered_self, List.nil_append]
        exact .inr (congrArg (fun known => [(⟨.recallScan, known⟩ : Step)]) hJ.1)
      · rw [stepsOf_answered_ne hj, List.append_nil]
        exact hJ.2
  · rw [stepsOf_append, stepsOf_edited, List.append_nil]
    exact hJ

end PartialSource

/-! ## Errands -/

/-- What can be going on at an engine: a task, or something that is only about its partials. -/
inductive Errand where
  | task (t : Task)
  /-- To see to it that the directory was scanned. -/
  | ensure
  /-- To register the partials of some names. -/
  | named (names : List String)

namespace Engine

variable (e : Engine)

/-- The program of an errand. -/
def errand : Errand → Program Unit
  | .task t => (e.work t).bind fun _ => .done ()
  | .ensure => e.partials.ensureScanned
  | .named names => (e.partials.registerNamed names).bind fun _ => .done ()

/-- An engine that has done nothing yet, with errands that are all to be done at once. -/
def begun (base : Registry) (files : Files.FileTree) (errands : List Errand) : Sharing Unit :=
  ⟨e.world base files, errands.map e.errand⟩

variable {e}

/-- **Each errand keeps to the rule of scans**, and one that sees to the partials does no more. -/
theorem errand_scans {A : (r : Request) → r.Answer → Prop} (x : Errand) :
    (e.errand x).Keeps A e.partials.Scans
      (fun _ past => x = .ensure → e.partials.enabled = true → e.partials.Ensures past) [] := by
  cases x with
  | ensure =>
    refine (PartialSource.ensureScanned_scans rfl).mono fun _ past hr _ hon => ?_
    obtain ⟨steps, hs, rfl⟩ := hr hon
    exact hs
  | named names =>
    refine .bind (((e.partials.registerNamed_asks names).keeps (P := fun _ => True)
      (fun r hr past _ => ⟨?_, fun _ => trivial⟩) trivial).mono fun _ _ _ => nofun)
    cases hr <;> trivial
  | task t =>
    refine .bind (Keeps.mono (Q := fun _ _ => True) ?_ fun _ _ _ => nofun)
    cases t with
    | render q => exact .bind ((answer_scans q).mono fun _ _ _ => trivial)
    | register name source => exact ⟨trivial, fun _ _ => trivial⟩
    | scan => exact .bind ((PartialSource.registerAll_scans rfl).mono fun _ _ _ => trivial)

variable {base : Registry} {files : Files.FileTree} {errands : List Errand}
  {m s : Sharing Unit} {log before after : List Happening}

/-- At any time the flag is truthful, and each errand keeps to the rule of scans. -/
theorem begun_truthful (h : (e.begun base files errands).Trace log s) :
    e.partials.Truthful log s.world ∧ ∀ (i : Nat) (p : Program Unit), s.programs[i]? = some p →
      p.Keeps (fun _ _ => True) e.partials.Scans (fun _ past =>
        errands[i]? = some .ensure → e.partials.enabled = true → e.partials.Ensures past)
        (stepsOf i log) := by
  refine h.keeps (J := fun log w => e.partials.Truthful log w)
    ⟨nofun, nofun, fun _ => Nat.zero_le _⟩ (fun i p hp => ?_)
    (fun log w i r hJ hr => ⟨trivial, hJ.answered hr⟩) fun log w files hJ => hJ.edited files
  rw [begun, List.getElem?_map, Option.map_eq_some_iff] at hp
  obtain ⟨x, hx, rfl⟩ := hp
  refine (errand_scans x).mono fun _ past hr he => hr ?_
  exact Option.some.inj (hx.symm.trans he)

/-- Seeing to the partials while the flag is not set is one scan, from its listing to its end. -/
theorem ensure_scans (h : (e.begun base files errands).Trace before m) {i : Nat} {step : Step}
    (h' : m.Trace (.answered i step :: after) s) (hi : errands[i]? = some .ensure)
    (hon : e.partials.enabled = true) (hstart : stepsOf i before = [])
    (hflag : m.world.scanned = false) (hdone : s.programs[i]? = some (.done ())) :
    ∃ finished scan, e.partials.Scan finished scan ∧
      stepsOf i (.answered i step :: after) = ⟨.recallScan, false⟩ :: scan := by
  have hensures := (begun_truthful (h.trans h')).2 i _ hdone hi hon
  obtain ⟨next, -, -, hanswer, -⟩ := h'.asked
  have hcons : stepsOf i (.answered i step :: after) = step :: stepsOf i after :=
    List.filterMap_cons_some (if_pos rfl)
  rw [stepsOf_append, hstart, List.nil_append] at hensures
  generalize hsteps : stepsOf i (.answered i step :: after) = steps at hensures
  cases hensures with
  | recalled =>
    obtain ⟨rfl, -⟩ := List.cons.inj (hcons.symm.trans hsteps)
    cases hflag.symm.trans hanswer.symm
  | scanned hs => exact ⟨_, _, hs, rfl⟩

/-- Whoever executes something without a failed scan of its own comes after a finished one. -/
theorem finished_of_execute (h : (e.begun base files errands).Trace before m) {i : Nat}
    {t : Compiled} {locals : Fields} {scope : Scope}
    {next : Except ViewError String × Scope → Program Unit}
    (hi : m.programs[i]? = some (.ask (.execute t locals scope) next))
    (hon : e.partials.enabled = true)
    (hown : ∀ scan, e.partials.Scan false scan → ¬ scan <:+: stepsOf i before) :
    ∃ j paths, e.partials.Finished paths (stepsOf j before) := by
  obtain ⟨htruthful, hkeeps⟩ := begun_truthful h
  obtain ⟨ensuring, he, hin⟩ := (hkeeps i _ hi).1 hon
  cases he with
  | recalled => exact htruthful.finished (htruthful.recalled i (hin.subset List.mem_cons_self))
  | @scanned finished scan hs =>
    have hscan : scan <:+: stepsOf i before := (List.suffix_cons _ _).isInfix.trans hin
    cases finished with
    | false => exact absurd hscan (hown scan hs)
    | true => exact ⟨i, hs.listed hscan⟩

/-- **The flag is truthful and final**, whatever scans, renders and registrations are on the way at
once and whenever the files change. While it is set, every file of some listing has been registered
under its name, and stays so. Whoever sees to the partials when it is set does nothing else; if it
is not set, there is a scan with one listing, which is over at the end. Nothing is executed before
the partials of some listing are registered, unless an own scan has failed. -/
theorem scan_flag_truthful (h : (e.begun base files errands).Trace before m)
    (h' : m.Trace after s) :
    (m.world.scanned = true → s.world.scanned = true ∧
      ∃ i paths, e.partials.Finished paths (stepsOf i before) ∧
        e.partials.Available paths s.world.registry) ∧
    (∀ i, errands[i]? = some .ensure → stepsOf i before = [] →
      (m.world.scanned = true → stepsOf i after = [] ∨ stepsOf i after = [⟨.recallScan, true⟩]) ∧
      ∀ step rest, after = .answered i step :: rest → e.partials.enabled = true →
        m.world.scanned = false → (listings (stepsOf i after)).length ≤ 1 ∧
        (s.programs[i]? = some (.done ()) → ∃ finished scan listed, e.partials.Scan finished scan ∧
          stepsOf i after = ⟨.recallScan, false⟩ :: scan ∧ listings scan = [listed])) ∧
    ∀ i t locals scope answer rest, after = .answered i ⟨.execute t locals scope, answer⟩ :: rest →
      e.partials.enabled = true →
      (∀ scan, e.partials.Scan false scan → ¬ scan <:+: stepsOf i before) →
      ∃ j paths, e.partials.Finished paths (stepsOf j before) ∧
        e.partials.Available paths m.world.registry ∧
        ((∀ edited, .edited edited ∉ before) →
          files.list e.partials.root e.partials.extname = .ok paths) := by
  obtain ⟨htruthful, -⟩ := begun_truthful h
  refine ⟨fun hset => ?_, fun i hi hstart => ⟨fun hset => ?_, ?_⟩, ?_⟩
  · obtain ⟨i, paths, hf⟩ := htruthful.finished hset
    have hlater := stepsOf_append ▸ hf.append (stepsOf i after)
    exact ⟨h'.scanned hset, i, paths, hf, hlater.available (h.trans h')⟩
  · refine PartialSource.ensureScanned_once (s := e.partials) h' hset ?_
    rw [h.untouched hstart, begun, List.getElem?_map, hi]
    rfl
  · rintro step rest rfl hon hunset
    refine ⟨?_, fun hdone => ?_⟩
    · have honce := (begun_truthful (h.trans h')).1.once i
      rwa [stepsOf_append, hstart, List.nil_append] at honce
    · obtain ⟨finished, scan, hs, hsteps⟩ := ensure_scans h h' hi hon hstart hunset hdone
      obtain ⟨listed, hlisted⟩ := hs.listings_eq
      exact ⟨finished, scan, listed, hs, hsteps, hlisted⟩
  · rintro i t locals scope answer rest rfl hon hown
    obtain ⟨next, -, hi, -⟩ := h'.asked
    obtain ⟨j, paths, hf⟩ := finished_of_execute h hi hon hown
    exact ⟨j, paths, hf, hf.available h, fun hedits => h.list_eq hedits hf.listed⟩

/-- A render, and three errands that see to the partials. -/
def threeScans : Sharing Unit :=
  (includingEngine false).begun ((freshRegistry {}).withBlockHelpers "block" "contentFor")
    (includingFiles "N") [.ensure, .ensure, .task (.render { name := "a" }), .ensure]

/-- Two of the scans overlap, and then the view is compiled. -/
def overlapping : List Happening × Sharing Unit :=
  threeScans.follow [.answer 0 2, .answer 1 3, .answer 0 10, .answer 2 12]

/-- The view is executed, and the partial changes before the last errand sees to the partials. -/
def executing : List Happening × Sharing Unit :=
  overlapping.2.follow [.answer 2 1, .edit (includingFiles "M"), .answer 3 5]

theorem scan_flag_truthful_overlapping :
    let e := includingEngine false
    (executing.2.world.scanned = true ∧
      ∃ i paths, e.partials.Finished paths (stepsOf i overlapping.1) ∧
        e.partials.Available paths executing.2.world.registry) ∧
      stepsOf 3 executing.1 = [⟨.recallScan, true⟩] ∧
      (∃ finished scan listed, e.partials.Scan finished scan ∧
        stepsOf 0 overlapping.1 = ⟨.recallScan, false⟩ :: scan ∧ listings scan = [listed]) ∧
      ∃ j paths, e.partials.Finished paths (stepsOf j overlapping.1) ∧
        e.partials.Available paths overlapping.2.world.registry ∧
        (includingFiles "N").list e.partials.root e.partials.extname = .ok paths := by
  intro e
  have hfirst : threeScans.Trace overlapping.1 overlapping.2 := Sharing.follow_trace _ threeScans
  have hlast : overlapping.2.Trace executing.1 executing.2 := Sharing.follow_trace _ overlapping.2
  obtain ⟨-, hscan, -⟩ := scan_flag_truthful .start hfirst
  obtain ⟨hset, hensure, hexecute⟩ := scan_flag_truthful hfirst hlast
  have hflag : overlapping.2.world.scanned = true := by cbv
  refine ⟨hset hflag, ?_, ?_, ?_⟩
  · have hbefore : stepsOf 3 overlapping.1 = [] := by cbv
    have hsome : (stepsOf 3 executing.1).isEmpty = false := by cbv
    refine ((hensure 3 rfl hbefore).1 hflag).resolve_left fun hnil => ?_
    cases hsome.symm.trans (congrArg List.isEmpty hnil)
  · have hhead : overlapping.1.head? = some (.answered 0 ⟨.recallScan, false⟩) := by cbv
    have hdone : overlapping.2.programs[0]? = some (.done ()) := by cbv
    obtain ⟨rest, hlog⟩ := List.head?_eq_some_iff.1 hhead
    exact ((hscan 0 rfl rfl).2 _ rest hlog (by decide) rfl).2 hdone
  · have hhead : executing.1.head? = some (.answered 2
        ⟨.execute ⟨"view::views/a.hbs#0", "view::views/a.hbs#0"⟩ [] (e.startScope { name := "a" }),
          (.ok "NA", e.startScope { name := "a" })⟩) := by
      cbv
    -- The render found the flag set, so it has listed nothing.
    have hnone : listings (stepsOf 2 overlapping.1) = [] := by cbv
    have hown : ∀ scan, e.partials.Scan false scan → ¬ scan <:+: stepsOf 2 overlapping.1 := by
      intro scan hs hi
      obtain ⟨listed, hlisted⟩ := hs.listings_eq
      have hsub : listings scan <:+: listings (stepsOf 2 overlapping.1) := hi.filterMap _
      rw [hnone, List.infix_nil, hlisted] at hsub
      cases hsub
    obtain ⟨rest, hlog⟩ := List.head?_eq_some_iff.1 hhead
    obtain ⟨j, paths, hf, havailable, hlist⟩ := hexecute 2 _ _ _ _ _ hlog (by decide) hown
    refine ⟨j, paths, hf, havailable, hlist fun edited hm => ?_⟩
    have hturn := Sharing.edit_of_edited hm
    simp at hturn

end Engine

end Views
