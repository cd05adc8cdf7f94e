import Views.Proofs.Engine.Outcome

/-!
# Renders one after the other

A new engine is steady (`Setting.steady_world`), so each render that runs with nothing else going on
ends with what was planned (`answer_alone`), and so does each of a sequence if all renders of one
view choose one layout (`serve_rendered`).
-/

set_option autoImplicit false

namespace Views

namespace Engine

variable {e : Engine} {base : Registry} {files : Files.FileTree}

/-- An engine that was built has the configuration, which is valid. -/
theorem of_build {config : Config} {r : Registry} (h : build config r = .ok (e, base)) :
    e.config = config ∧ config.viewPath ≠ "" ∧
      base = r.withBlockHelpers config.blockHelperName config.contentHelperName := by
  unfold build at h
  cases hv : config.validate with
  | error err => rw [hv] at h; cases h
  | ok _ =>
    rw [hv] at h
    cases h
    exact ⟨rfl, viewPath_ne_empty hv, rfl⟩

/-- Partials whose files have no name like a key have none. -/
theorem not_keyLike_of_mem_scan
    (h : ∀ path ∈ e.partials.listed files, ¬ KeyLike (e.partials.partialName path)) :
    ∀ entry ∈ e.partials.scan files, ¬ KeyLike entry.1 := by
  intro entry he
  obtain ⟨path, hp, hf⟩ := PartialSource.exists_of_mem_loaded he
  rw [PartialSource.fileAt_name hf]
  exact h path hp

/-- A view beside two partials: the name of one is the key of the identity layout, and the other is
no text, so that all are registered again with each render. -/
def keyedFiles : Files.FileTree :=
  ⟨.directory [("partials", .directory [("layout::@identity.hbs", .file "P"),
    ("z.hbs", .file none)]), ("views", .directory [("a.hbs", .file "V")])], []⟩

/-- Renders of one view with one variable `layout` choose one layout. -/
theorem ownChoice_congr {q q' : Query} (hl : q.logical = q'.logical)
    (h : Table.get? (e.merged q) "layout" = Table.get? (e.merged q') "layout") :
    e.ownChoice files q = e.ownChoice files q' := by
  unfold ownChoice chooseLayout
  rw [hl, h]

theorem chooseLayout_of_ownChoice {q : Query} (text : String)
    (ht : e.textOf files (.view q.logical) = .ok text) :
    chooseLayout (e.merged q) text = e.ownChoice files q := by
  unfold ownChoice
  simp only [ht]

/-- The layouts that some renders choose, by the names of their views. -/
def choices (e : Engine) (files : Files.FileTree) (qs : List Query) (logical : String) :
    Option LayoutChoice :=
  (qs.find? fun q => q.logical = logical).map (e.ownChoice files)

theorem choices_of_mem {qs : List Query} (h : ∀ q ∈ qs, ∀ q' ∈ qs, q.logical = q'.logical →
      Table.get? (e.merged q) "layout" = Table.get? (e.merged q') "layout") {q : Query}
    (hq : q ∈ qs) : e.choices files qs q.logical = some (e.ownChoice files q) := by
  unfold choices
  cases hf : qs.find? fun q' => q'.logical = q.logical with
  | none =>
    have := List.find?_eq_none.1 hf q hq
    simp at this
  | some q' =>
    have hl : q'.logical = q.logical := by simpa using List.find?_some hf
    rw [Option.map_some, ownChoice_congr hl (h q' (List.mem_of_find?_eq_some hf) q hq hl)]

end Engine

namespace Setting

open Engine

variable {c : Setting} {w : World}

/-- The stores of a new engine are steady. -/
theorem steady_world (h : ∀ name, ¬ c.cached name) : c.Steady (c.engine.world c.base c.files) where
  files := rfl
  enabled := rfl
  like := ⟨rfl, rfl, rfl⟩
  paths _ _ h := by cases h
  entries name entry h := by
    rw [show ((c.engine.world c.base c.files).cache.get? name) = none from ite_self _] at h
    cases h
  cached name hn := absurd hn (h name)
  default t h := by
    rw [show (c.engine.world c.base c.files).cache.defaultLayout? = none from ite_self _] at h
    cases h
  partials _ _ := .inl rfl
  scanned h := by cases h

/-- A render that runs alone ends with what was planned. -/
theorem answer_alone {q : Query} {choice : LayoutChoice} (hw : c.Steady w)
    (hkeys : c.engine.config.caching = true →
      ∀ entry ∈ c.engine.partials.scan c.files, ¬ KeyLike entry.1)
    (hc : c.chosen q.logical = some choice)
    (hown : c.cached q.logical ∨ ∀ text, c.engine.textOf c.files (.view q.logical) = .ok text →
      chooseLayout (c.engine.merged q) text = choice)
    (hsv : c.SettledAt (.view q.logical)) (hsl : c.SettledAt (c.engine.originOf choice)) :
    c.Steady ((c.engine.answer q).run w).world ∧
      c.Rendered q choice ((c.engine.answer q).run w).result ∧
      ((∃ i j p, c.engine.plan c.files q.logical choice i j = .ok p) →
        c.engine.config.caching = true →
        (((c.engine.answer q).run w).world.cache.get? q.logical).isSome = true) :=
  ((answer_meets (R := Eq) (G := fun _ _ => True) hw (fun u _ h => h ▸ .refl u)
    (fun _ _ _ => trivial) (fun _ hv => ensureScanned_alone hv hkeys) hc hown hsv hsl).run
    (fun _ => rfl) hw).1

/-- Renders one after the other, of which those of one view choose one layout, end with what was
planned. -/
theorem serve_rendered {qs : List Query} (hw : c.Steady w)
    (hkeys : c.engine.config.caching = true →
      ∀ entry ∈ c.engine.partials.scan c.files, ¬ KeyLike entry.1)
    (hq : ∀ q ∈ qs, c.chosen q.logical = some (c.engine.ownChoice c.files q) ∧
      c.SettledAt (.view q.logical) ∧
      c.SettledAt (c.engine.originOf (c.engine.ownChoice c.files q))) :
    List.Forall₂ (fun q result => c.Rendered q (c.engine.ownChoice c.files q) result) qs
      ((c.engine.serve qs).run w).result := by
  induction qs generalizing w with
  | nil => exact .nil
  | cons q qs ih =>
    obtain ⟨hc, hsv, hsl⟩ := hq q List.mem_cons_self
    obtain ⟨hw', hr, -⟩ :=
      answer_alone hw hkeys hc (.inr chooseLayout_of_ownChoice) hsv hsl
    have hrun : ((c.engine.serve (q :: qs)).run w).result =
        ((c.engine.answer q).run w).result ::
          ((c.engine.serve qs).run ((c.engine.answer q).run w).world).result := by
      simp only [serve, Program.bind_eq, Program.pure_eq, Program.run_bind, Program.run_done]
    rw [hrun]
    exact .cons hr (ih hw' fun q' hq' => hq q' (List.mem_cons_of_mem _ hq'))

end Setting

end Views
