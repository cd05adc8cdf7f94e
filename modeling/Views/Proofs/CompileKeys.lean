import Views.Proofs.Engine.Loading
import Views.Proofs.Engine.Numbers
import Views.Proofs.Program.Schedule

/-!
# Keys of compilations

A key is made of the kind of a file, its path and, with caching, the number of keys before it, and
nothing in it is escaped. Two keys that are made one after the other are equal only without caching,
and then only for one kind and one path (`compileKey_eq_iff`). In an engine in use what is compiled
under a key is of the file that the key was made for, or it is the identity layout under its own key
(`compile_cases`). `compileKeys_apart` has both.
-/

set_option autoImplicit false

namespace Views

/-- The key that something is compiled under. -/
def Happening.key? : Happening → Option String
  | answered _ ⟨.compile key _, _⟩ => some key
  | _ => none

/-! ## Numbers -/

/-- Whether a number is drawn. -/
def Happening.draws : Happening → Bool
  | answered _ ⟨.nextNumber, _⟩ => true
  | _ => false

/-- How many numbers were drawn. -/
def draws (log : List Happening) : Nat := log.countP Happening.draws

theorem World.number_perform (w : World) (r : Request) (i : Nat) : (w.perform r).2.number =
    w.number + draws [.answered i ⟨r, (w.perform r).1⟩] := by
  rw [perform_world]
  cases r <;> rfl

/-- **The next number is the number of those that were drawn**, whatever programs share the world.
So a counter of 64 bits gives the same numbers until `2 ^ 64` of them are drawn. -/
theorem Sharing.Trace.number_eq {α : Type} {s s' : Sharing α} {log : List Happening}
    (h : s.Trace log s') : s'.world.number = s.world.number + draws log := by
  induction h with
  | start => rfl
  | @next log x m s' _ hx ih =>
    have hlog : draws (log ++ [x]) = draws log + draws [x] := List.countP_append
    rw [hlog, ← Nat.add_assoc, ← ih]
    cases hx with
    | answer _ => exact World.number_perform _ _ _
    | edit files => rfl

namespace Engine

variable {e : Engine}

/-! ## Two keys -/

theorem compileKey_number (kind : FileKind) (path : String) (w : World) :
    ((e.compileKey kind path).run w).world.number =
      if e.config.caching then w.number + 1 else w.number := by
  unfold compileKey
  split
  · rfl
  · rfl

/-- **Two keys that are made one after the other**, with anything going on in between. -/
theorem compileKey_eq_iff {α : Type} {w : World} {ps : List (Program α)} {log : List Happening}
    {s : Sharing α} {kind kind' : FileKind} {path path' : String}
    (h : (Sharing.mk ((e.compileKey kind path).run w).world ps).Trace log s) :
    ((e.compileKey kind path).run w).result = ((e.compileKey kind' path').run s.world).result ↔
      e.config.caching = false ∧ kind = kind' ∧ path = path' := by
  have hnumber := h.number_eq
  rw [compileKey_number] at hnumber
  rw [compileKey_result, compileKey_result, nextMark, nextMark]
  cases hc : e.config.caching with
  | true =>
    rw [hc] at hnumber
    refine ⟨fun hkey => ?_, fun h => nomatch h.1⟩
    have heq : w.number = s.world.number := keyOf_some_inj hkey
    simp only [if_true] at hnumber
    omega
  | false =>
    refine ⟨fun hkey => ⟨rfl, keyOf_inj (i := none) (j := none) rfl hkey⟩, ?_⟩
    rintro ⟨-, rfl, rfl⟩
    rfl

/-! ## An engine in use -/

/-- A file is compiled under a key that was made for it; what was compiled under the key before was
a text of the same file, and with caching there was nothing. -/
def CompilesFile (e : Engine) (before : List Happening) (i : Nat) (key text : String) : Prop :=
  ∃ o kind path n, e.fileOf o = some (kind, path) ∧ (⟨.read path, .ok text⟩ : Step) ∈
      stepsOf i before ∧ e.Drawn (stepsOf i before) n ∧ key = keyOf kind path n ∧
    key ≠ identityKey ∧ ∀ j text' answer, .answered j ⟨.compile key text', answer⟩ ∈ before →
      e.config.caching = false ∧ (⟨.read path, .ok text'⟩ : Step) ∈ stepsOf j before

variable {base : Registry} {files : Files.FileTree} {tasks : List Task}
  {s : Sharing Task.Report} {before after : List Happening} {i : Nat} {key text : String}
  {answer : Except ViewError Compiled}

/-- Without caching all that is compiled under the key of a file is read in that file. -/
theorem read_of_compiled (hv : e.config.viewPath ≠ "") (hoff : e.config.caching = false)
    {o : Origin} {kind : FileKind} {path : String} (ho : e.fileOf o = some (kind, path))
    (h : (e.started base files tasks).Trace
      (before ++ .answered i ⟨.compile (keyOf kind path none) text, answer⟩ :: after) s) :
    (⟨.read path, .ok text⟩ : Step) ∈ stepsOf i before := by
  generalize hk : keyOf kind path none = key at h
  cases obeyed h with
  | @file o' kind' path' n _ ho' hread hn =>
    cases n with
    | none =>
      obtain ⟨-, rfl⟩ := keyOf_inj (i := none) (j := none) rfl hk
      exact hread
    | some n => cases hoff.symm.trans hn.1
  | identity => exact absurd hk.symm (identityKey_ne_keyOf (fileOf_path hv ho).1)

/-- **What is compiled** is a file, or the identity layout. -/
theorem compile_cases (hv : e.config.viewPath ≠ "")
    (h : (e.started base files tasks).Trace
      (before ++ .answered i ⟨.compile key text, answer⟩ :: after) s) :
    key = identityKey ∧ text = identitySource ∨ e.CompilesFile before i key text := by
  obtain ⟨m, hm, -⟩ := h.split
  cases obeyed h with
  | identity => exact .inl ⟨rfl, rfl⟩
  | @file o kind path n _ ho hread hn =>
    refine .inr ⟨o, kind, path, n, ho, hread, hn, rfl,
      (identityKey_ne_keyOf (fileOf_path hv ho).1).symm, fun j text' answer' hj => ?_⟩
    cases n with
    | some n => exact absurd hj ((counted hn.1 hm).unused i n hn.2 _ _ _ _ _)
    | none =>
      obtain ⟨first, rest, rfl⟩ := List.append_of_mem hj
      refine ⟨hn, ?_⟩
      rw [stepsOf_append]
      exact List.mem_append_left _ (read_of_compiled hv hn ho hm)

/-- **Keys of compilations are apart.** With caching no two keys that are made are equal; without
caching they are equal for one kind and one path only. The key of the identity layout is made for no
file. And so it is in an engine in use, where the next number is the number of keys that were
made. -/
theorem compileKeys_apart (hv : e.config.validate = .ok ()) :
    (∀ {α : Type} (w : World) (ps : List (Program α)) (log : List Happening) (s : Sharing α)
      (kind kind' : FileKind) (path path' : String),
      let first := (e.compileKey kind path).run w
      (Sharing.mk first.world ps).Trace log s →
        (first.result = ((e.compileKey kind' path').run s.world).result ↔
          e.config.caching = false ∧ kind = kind' ∧ path = path')) ∧
    (∀ (w : World) (o : Origin) (kind : FileKind) (path : String),
      e.fileOf o = some (kind, path) → ((e.compileKey kind path).run w).result ≠ identityKey) ∧
    ∀ (base : Registry) (files : Files.FileTree) (tasks : List Task) (log : List Happening)
      (s : Sharing Task.Report), (e.started base files tasks).Trace log s →
        s.world.number = draws log ∧
        ∀ before i key text answer after,
          log = before ++ .answered i ⟨.compile key text, answer⟩ :: after →
          key = identityKey ∧ text = identitySource ∨ e.CompilesFile before i key text := by
  have hpath := viewPath_ne_empty hv
  refine ⟨fun w ps log s kind kind' path path' => compileKey_eq_iff, ?_, ?_⟩
  · intro w o kind path ho
    rw [compileKey_result]
    exact (identityKey_ne_keyOf (fileOf_path hpath ho).1).symm
  · intro base files tasks log s h
    refine ⟨h.number_eq.trans (Nat.zero_add _), ?_⟩
    rintro before i key text answer after rfl
    exact compile_cases hpath h

/-- A directory of layouts whose name ends like a word in a key, and files with names like the rest
of one. -/
def markedFiles : Files.FileTree :=
  ⟨.directory [("layout::", .directory [("@identity.hbs", .file "[{{{body}}}]")]),
    ("v", .directory [("@#0.hbs", .file "V")])], []⟩

/-- Two renders of a view, one in a layout that is called like the identity layout and one in the
identity layout. -/
theorem compileKeys_apart_marked :
    let config : Config := { viewPath := "v", layoutsPath := "layout::" }
    let e : Engine := ⟨config⟩
    let base := (freshRegistry {}).withBlockHelpers "block" "contentFor"
    let start := e.started base markedFiles
      [.render { name := "@#0", locals := [("layout", .string "@identity")] },
        .render { name := "@#0", locals := [("layout", .bool false)] }]
    let followed := start.follow [.answer 0 10, .answer 1 30, .answer 0 30]
    let view (w : World) := (e.compileKey .view (e.resolver.templatePath "@#0")).run w
    let layout (w : World) := (e.compileKey .layout (e.resolver.layoutPath "@identity")).run w
    config.validate = .ok () ∧ start.Trace followed.1 followed.2 ∧
      followed.1.filterMap Happening.key? = ["view::v/@#0.hbs#0",
        "layout::layout::/@identity.hbs#1", "view::v/@#0.hbs#2", "layout::@identity"] ∧
      followed.2.world.number = 3 ∧
      (view start.world).result ≠ (view (view start.world).world).result ∧
      (layout start.world).result ≠ identityKey := by
  intro config e base start followed view layout
  have hv : e.config.validate = .ok () := rfl
  have htrace : start.Trace followed.1 followed.2 := Sharing.follow_trace _ _
  obtain ⟨htwo, hidentity, huse⟩ := compileKeys_apart hv
  have hkeys : followed.1.filterMap Happening.key? = ["view::v/@#0.hbs#0",
      "layout::layout::/@identity.hbs#1", "view::v/@#0.hbs#2", "layout::@identity"] := by cbv
  have hdraws : draws followed.1 = 3 := by cbv
  refine ⟨hv, htrace, hkeys, (huse _ _ _ _ _ htrace).1.trans hdraws, fun h => ?_,
    hidentity _ (.layout "@identity") _ _ rfl⟩
  cases ((htwo start.world start.programs [] _ .view .view _ _ .start).1 h).1

end Engine

end Views
