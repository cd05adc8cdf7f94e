import Mathlib.Data.List.TakeWhile
import Views.Proofs.Program.Alone
import Views.Proofs.Registration
import Views.Proofs.ShownLayout

/-!
# The partials that are shown

The command line lists the partials without registering any: it makes the names itself, from its own
listing of the directory. They are the names of the files that a scan of the directory goes through
(`Cli.shown_partials`). The scan stops at the first file that gives no partial, so what it registers
is a first part of what is shown, and all of it iff every file gives one.
-/

set_option autoImplicit false

namespace Views

namespace PartialSource

variable {s : PartialSource} {files : Files.FileTree} {paths : List String}

/-- A visit to a file registers its partial, if the file gives one. -/
theorem registrations_visit (path : String) :
    registrations (s.visit files path) =
      if s.gives files path then [s.partialName path] else [] := by
  cases hr : files.read (Files.join s.root path) with
  | error fault =>
    simp only [gives, fileAt, visit, Engine.readText, hr]
    rfl
  | ok source =>
    cases hc : Template.compile (s.partialName path) source true with
    | error err =>
      simp only [gives, fileAt, visit, Engine.readText, hr, Except.mapError, hc]
      rfl
    | ok t =>
      simp only [gives, fileAt, visit, Engine.readText, hr, Except.mapError, hc]
      rfl

theorem registrations_flatMap_visit (paths : List String) :
    registrations (paths.flatMap (s.visit files)) =
      (paths.filter (s.gives files)).map s.partialName := by
  induction paths with
  | nil => rfl
  | cons path rest ih =>
    rw [List.flatMap_cons, registrations_append, ih, registrations_visit, List.filter_cons]
    split <;> rfl

/-- What a registration registers are the files in front of the first that gives no partial. -/
theorem Registers.registrations_eq {w : World} {sel : Selection} {run : Run Nat}
    (h : s.Registers w sel (paths.takeWhile (s.gives w.files))
      (paths.dropWhile (s.gives w.files)) run) :
    registrations run.steps = (paths.takeWhile (s.gives w.files)).map s.partialName := by
  have hlisting : registrations (s.listing w.files sel) = [] := by cases sel <;> rfl
  have hdone : (paths.takeWhile (s.gives w.files)).filter (s.gives w.files) =
      paths.takeWhile (s.gives w.files) :=
    List.filter_eq_self.2 (List.all_eq_true.1 List.all_takeWhile)
  have hrest : ((paths.dropWhile (s.gives w.files)).take 1).filter (s.gives w.files) = [] := by
    cases hr : paths.dropWhile (s.gives w.files) with
    | nil => rfl
    | cons path rest =>
      have hfirst := List.head?_dropWhile_not (s.gives w.files) paths
      rw [hr] at hfirst
      simpa using hfirst
  have hflag : registrations (if sel = .directory ∧ paths.dropWhile (s.gives w.files) = [] then
      [⟨.storeScan, ()⟩] else []) = [] := by
    split <;> rfl
  rw [h.steps, registrations_append, registrations_append, hlisting, hflag,
    registrations_flatMap_visit, List.filter_append, hdone, hrest, List.append_nil,
    List.append_nil, List.nil_append]

end PartialSource

namespace Cli

open Files (FileTree)

variable {config : Config} {w : World}

theorem partialNames_run (hen : config.partialsEnabled = true) :
    let listed := w.files.list config.partialsPath config.extname
    (partialNames config).run w = ⟨match listed with
        | .ok paths => .ok (paths.map (shownName config.extname))
        | .error err => .error err.report, w,
      [⟨.list config.partialsPath config.extname, listed⟩]⟩ := by
  intro listed
  have hperform : w.perform (.list config.partialsPath config.extname) = (listed, w) := rfl
  rw [partialNames, if_pos hen, Program.bind_eq, Program.request_bind, Program.run_ask, hperform]
  cases listed <;> rfl

theorem run_partials (config : Config) (files : FileTree) :
    ∃ w : World, w.files = files ∧
      (Command.run FileTree.perform config .partials).run files =
        (((partialNames config).run w).result.map lines, files) := by
  let stores := Stores.fresh (Engine.freshRegistry config.templateOptions) config.caching
  refine ⟨⟨stores, files⟩, rfl, ?_⟩
  rw [Command.run]
  show (Program.runOn FileTree.perform _ stores >>= _ : StateM FileTree _).run files = _
  rw [StateT.run_bind, Program.runOn_fileTree]
  rfl

/-- **The partials that are shown are those that a scan goes through.** The command fails iff the
directory cannot be listed, and then the scan registers nothing. Otherwise it shows the names of the
files in the listing of the scan; the names that the scan registers are the first of them, up to a
file that is no text or does not compile, and all of them iff there is no such file. -/
theorem shown_partials (hen : config.partialsEnabled = true) (w : World) :
    let s : PartialSource := ⟨config.partialsPath, config.extname⟩
    let shown := (Command.run FileTree.perform config .partials).run w.files
    let scan := (s.register .directory).run w
    match w.files.list s.root s.extname with
    | .error err => shown = (.error err.report, w.files) ∧
        scan = ⟨0, w, [⟨.list s.root s.extname, .error err⟩]⟩
    | .ok paths =>
      let names := paths.map s.partialName
      shown = (.ok (lines names), w.files) ∧ ((partialNames config).run w).result = .ok names ∧
        scan.steps.head? = some ⟨.list s.root s.extname, .ok paths⟩ ∧
        s.Registers w .directory (paths.takeWhile (s.gives w.files))
          (paths.dropWhile (s.gives w.files)) scan ∧
        registrations scan.steps <+: names ∧
        (registrations scan.steps = names ↔ ∀ path ∈ paths, ∃ source t,
          w.files.read (Files.join s.root path) = .ok source ∧
            Template.compile (s.partialName path) source true = .ok t) := by
  intro s shown scan
  have henabled : s.enabled = true := hen
  obtain ⟨w', hfiles, hshown⟩ := run_partials config w.files
  rw [partialNames_run hen, hfiles] at hshown
  cases hl : w.files.list s.root s.extname with
  | error err =>
    rw [show w.files.list config.partialsPath config.extname = .error err from hl] at hshown
    refine ⟨hshown, (PartialSource.register_unlisted henabled hl).trans ?_⟩
    rw [PartialSource.listing, hl]
  | ok paths =>
    rw [show w.files.list config.partialsPath config.extname = .ok paths from hl] at hshown
    have hregisters := PartialSource.register_directory henabled hl
    have hnames : registrations scan.steps =
        (paths.takeWhile (s.gives w.files)).map s.partialName := hregisters.registrations_eq
    refine ⟨hshown, ?_, ?_, hregisters, ?_, ?_⟩
    · rw [partialNames_run hen, show w.files.list config.partialsPath config.extname = _ from hl]
      rfl
    · rw [hregisters.steps, PartialSource.listing, hl]
      rfl
    · rw [hnames]
      exact (List.takeWhile_prefix _).map _
    · simp only [hnames, ← PartialSource.gives_iff]
      refine ⟨fun h => ?_, fun h => ?_⟩
      · -- The part in front of the first bad file is as long as the whole.
        have hlength := congrArg List.length h
        rw [List.length_map, List.length_map] at hlength
        have hall := (List.takeWhile_prefix (s.gives w.files)).eq_of_length hlength
        exact fun path hp => List.all_eq_true.1 List.all_takeWhile path (hall ▸ hp)
      · rw [List.takeWhile_eq_self_iff.2 h]

/-- One of the files is malformed. -/
theorem shown_partials_malformed :
    let config : Config := { partialsPath := "p" }
    let s : PartialSource := ⟨"p", ".hbs"⟩
    let files : FileTree := ⟨.directory [("p", .directory [("a", .directory [("b.hbs", .file "1")]),
      ("c.hbs", .file "\x7b\x7b"), ("d.hbs", .file "4")])], []⟩
    let w : World := ⟨Stores.fresh (Registry.new false true) true, files⟩
    (Command.run FileTree.perform config .partials).run files = (.ok "a/b\nc\nd\n", files) ∧
      registrations ((s.register .directory).run w).steps = ["a/b"] := by
  intro config s files w
  have hlist : w.files.list "p" ".hbs" = .ok ["a/b.hbs", "c.hbs", "d.hbs"] := by cbv
  have hnames : ["a/b.hbs", "c.hbs", "d.hbs"].map s.partialName = ["a/b", "c", "d"] := by cbv
  have hdone : ["a/b.hbs", "c.hbs", "d.hbs"].takeWhile (s.gives files) = ["a/b.hbs"] := by cbv
  have hen : config.partialsEnabled = true := by decide
  have hshown := shown_partials hen w
  simp only [show w.files.list config.partialsPath config.extname = _ from hlist] at hshown
  obtain ⟨htext, -, -, hregisters, -⟩ := hshown
  refine ⟨htext.trans ?_, hregisters.registrations_eq.trans ?_⟩
  · show (Except.ok (lines (["a/b.hbs", "c.hbs", "d.hbs"].map s.partialName)), files) = _
    rw [hnames]
    rfl
  · show (["a/b.hbs", "c.hbs", "d.hbs"].takeWhile (s.gives files)).map s.partialName = _
    rw [hdone]
    cbv

end Cli

end Views
