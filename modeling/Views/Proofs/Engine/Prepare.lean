import Views.Proofs.Engine.Scan

/-!
# Preparing a render

Each program of the engine up to `Engine.prepare` has one specification, and its callers use
nothing else of it. The result of each is what `Engine.load` gives for an origin, with some numbers
in the keys, and the registry then holds it (`Setting.Loaded`). Together they say that a render
prepares what `Engine.plan` says (`prepare_meets`), however its steps and those of others fall
together, if the scan of the partials meets its own specification.
-/

set_option autoImplicit false

namespace Views

/-- Takes the view of a name and its layout from the cache or compiles them. -/
def Engine.assemble (e : Engine) (logical : String) (merged : Fields) : Attempt Prepared := do
  let entry ← e.entryFor logical (e.resolver.templatePath logical) merged
  let layout ← (match entry.layout with
    | some layout => pure (some layout)
    | none => e.defaultLayout : Program _)
  return ⟨entry.template, layout⟩

theorem Engine.assemble_eq (e : Engine) (logical : String) (merged : Fields) :
    e.assemble logical merged =
      Program.bind (e.entryFor logical (e.resolver.templatePath logical) merged)
        (Attempt.after fun entry =>
          (match entry.layout with
            | some layout => .done (some layout)
            | none => e.defaultLayout : Program _).bind fun layout =>
              .done (.ok ⟨entry.template, layout⟩)) := by
  simp only [assemble, Attempt.bind_eq, Attempt.lift_eq, Attempt.lift_bind]
  rfl

namespace Setting

open Engine

variable {c : Setting} {w : World}

/-! ## Resolving -/

theorem exists_numbered (e : Engine) : ∃ i, e.Numbered i := by
  cases h : e.config.caching with
  | true => exact ⟨some 0, h.symm⟩
  | false => exact ⟨none, h.symm⟩

theorem templatePath_of_isAbsolute (e : Engine) {name : String} (h : Files.isAbsolute name = true) :
    e.resolver.templatePath name = name ++ e.config.extname := by
  have ha : Files.isAbsolute (name ++ e.config.extname) = true := by
    rw [Files.isAbsolute_iff, String.toList_append]
    exact (Files.isAbsolute_iff.1 h).trans (List.prefix_append _ _)
  exact if_pos ha

theorem resolve_safe (name : String) :
    c.Safe (c.engine.resolver.resolve name) (fun r _ => r =
      if c.engine.found c.files name then some (c.engine.resolver.templatePath name) else none)
      w := by
  rw [Resolver.resolve]
  by_cases ha : Files.isAbsolute name = true
  · rw [if_pos ha]
    show _ = _
    rw [found, ha, Bool.true_or, if_pos rfl, templatePath_of_isAbsolute _ ha]
    rfl
  · have hfound : c.engine.found c.files name =
        c.files.isFile (c.engine.resolver.templatePath name) := by
      rw [found, Bool.eq_false_iff.2 ha, Bool.false_or]
    rw [if_neg ha, hfound]
    refine Program.Meets.bind (Program.Meets.request fun v _ hv => ⟨hv, .refl v, ?_⟩)
    rw [World.perform_recallPath]
    cases hp : v.paths.get? name with
    | some path =>
      obtain ⟨-, rfl, hf⟩ := hv.paths name path hp
      show _ = _
      rw [hf, if_pos rfl]
    | none =>
      refine Program.Meets.bind (Program.Meets.request fun u _ hu => ⟨hu, .refl u, ?_⟩)
      rw [show u.perform (.probe (c.engine.resolver.templatePath name)) =
        (c.files.isFile (c.engine.resolver.templatePath name), u) from hu.files ▸ rfl]
      split
      · rename_i hf
        split
        · rename_i hon
          refine Program.Meets.bind (Program.Meets.request fun x _ hx => ?_)
          rw [World.perform_storePath]
          refine ⟨{ hx with paths := fun n path hn => ?_ }, .of_registry rfl fun _ h => h, rfl⟩
          rw [Table.get?_insert] at hn
          split at hn
          · rename_i heq
            subst heq
            cases hn
            exact ⟨hon, rfl, hf⟩
          · exact hx.paths n path hn
        · exact rfl
      · exact rfl

/-! ## Reading and compiling -/

/-- A result of loading an origin, which the registry then holds. -/
def Loaded (c : Setting) (o : Origin) (r : Except ViewError Compiled) (w : World) : Prop :=
  ∃ i, c.engine.Numbered i ∧ r = c.engine.load c.files o i ∧
    ∀ t, r = .ok t → c.engine.Held c.files w.registry o t

/-- The markers of an origin refer to no other partials than the scan, where governed. -/
def SettledAt (c : Setting) (o : Origin) : Prop :=
  ∀ text, c.engine.textOf c.files o = .ok text → c.Settled text

theorem compileKey_safe (kind : FileKind) (path : String) :
    c.Safe (c.engine.compileKey kind path) (fun key _ => ∃ i, c.engine.Numbered i ∧
      key = keyOf kind path i) w := by
  unfold compileKey
  split
  · rename_i hon
    refine Program.Meets.bind (Program.Meets.request fun v _ hv => ?_)
    rw [World.perform_nextNumber]
    exact ⟨{ hv with }, .of_registry rfl fun _ h => h, some v.number, hon.symm, rfl⟩
  · rename_i hoff
    exact ⟨none, (by simpa using hoff : _ = false).symm, rfl⟩

/-- Compiling the text of an origin, with the partials of its markers registered. -/
theorem compile_safe {o : Origin} {i : Option Nat} {text : String} (hi : c.engine.Numbered i)
    (ht : c.engine.textOf c.files o = .ok text)
    (hn : c.engine.config.caching = false → ∀ entry ∈ c.engine.partials.named c.files text,
      w.registry.templates.get? entry.1 = some entry.2) :
    c.Safe (Program.request (.compile (c.engine.keyFor o i) text)) (c.Loaded o) w := by
  refine Program.Meets.request fun v hl hv => ?_
  obtain ⟨h1, h2⟩ := hv.compile hi ht
  refine ⟨h1, h2, i, hi, ?_, fun t h => ?_⟩
  · rw [perform_compile, load, ht]
    rfl
  · rw [perform_compile] at h
    exact held_compile hi ht h fun hoff entry he => hl.named hoff text entry he (hn hoff entry he)

theorem loadFile_safe {o : Origin} {kind : FileKind} {path : String}
    (ho : c.engine.fileOf o = some (kind, path)) (hs : c.SettledAt o) :
    c.Safe (c.engine.loadFile kind path) (fun r v => c.Loaded o (r.map Prod.fst) v ∧
      ∀ t text, r = .ok (t, text) → c.engine.textOf c.files o = .ok text) w := by
  rw [loadFile_eq]
  refine Program.Meets.bind (Program.Meets.request fun v _ hv => ⟨hv, .refl v, ?_⟩)
  have htext : c.engine.textOf c.files o = readText v.files path := by
    rw [textOf, ho, hv.files]
  show Program.Meets _ _ _ _ (Attempt.after _ (readText v.files path)) v
  rw [← htext]
  cases ht : c.engine.textOf c.files o with
  | error err =>
    obtain ⟨i, hi⟩ := exists_numbered c.engine
    refine ⟨⟨i, hi, ?_, fun t h => ?_⟩, fun t text h => ?_⟩
    · rw [load, ht]
      rfl
    · cases h
    · cases h
  | ok text =>
    rw [Attempt.after_ok, loadText_eq]
    refine Safe.bind hv (registerReferenced_safe (hs text ht)) fun _ u hn hu _ => ?_
    refine Safe.bind hu (compileKey_safe kind path) fun key x hk hx hl => ?_
    obtain ⟨i, hi, rfl⟩ := hk
    have hkey : keyOf kind path i = c.engine.keyFor o i := by rw [keyFor, ho]
    rw [hkey]
    refine Safe.attempt hx (compile_safe hi ht fun hoff entry he =>
      hl.named hoff text entry he (hn hoff entry he)) (fun t y hy _ _ => ?_) fun err y hy => ?_
    · refine ⟨hy, fun t' text' h => ?_⟩
      cases h
      rfl
    · exact ⟨hy, fun t' text' h => by cases h⟩

/-! ## Layouts -/

theorem loadLayout_safe {name : String} (hw : c.Steady w) (hs : c.SettledAt (.layout name)) :
    c.Safe (c.engine.loadLayout name) (c.Loaded (.layout name)) w := by
  rw [loadLayout_eq]
  refine Safe.attempt hw (loadFile_safe rfl hs) (fun a v hv _ _ => ?_) fun err v hv => hv.1
  exact hv.1

theorem named_identitySource : c.engine.partials.named c.files identitySource = [] := by
  have h : Markers.partialNames identitySource = [] := by cbv
  rw [PartialSource.named, h]
  exact ite_self _

theorem identityLayout_safe : c.Safe identityLayout (c.Loaded .identity) w := by
  obtain ⟨i, hi⟩ := exists_numbered c.engine
  refine compile_safe (o := .identity) hi rfl fun _ entry he => ?_
  rw [named_identitySource] at he
  cases he

/-- What compiling the layout of a choice gives; the default layout is left for later. -/
def chosenLayout (c : Setting) (choice : LayoutChoice) (j : Option Nat) :
    Except ViewError (Option Compiled) :=
  match choice with
  | .byDefault => .ok none
  | choice => (c.engine.load c.files (c.engine.originOf choice) j).map some

theorem chosenLayout_of_ne {choice : LayoutChoice} (h : choice ≠ .byDefault) (j : Option Nat) :
    c.chosenLayout choice j = (c.engine.load c.files (c.engine.originOf choice) j).map some := by
  cases choice with
  | byDefault => exact absurd rfl h
  | identity => rfl
  | named name => rfl

theorem map_some_safe {x : Attempt Compiled} {o : Origin} {choice : LayoutChoice}
    (hw : c.Steady w) (hx : c.Safe x (c.Loaded o) w) (ho : c.engine.originOf choice = o)
    (hc : ∀ j, c.chosenLayout choice j = (c.engine.load c.files o j).map some) :
    c.Safe (Program.bind x fun r => .done (r.map some)) (fun r v => ∃ j, c.engine.Numbered j ∧
      r = c.chosenLayout choice j ∧
      ∀ t, r = .ok (some t) → c.engine.Held c.files v.registry (c.engine.originOf choice) t) w := by
  refine Safe.bind hw hx fun r v hr _ _ => ?_
  obtain ⟨j, hj, rfl, hh⟩ := hr
  refine ⟨j, hj, (hc j).symm, fun t ht => ho ▸ hh t ?_⟩
  cases hl : c.engine.load c.files o j with
  | error err => rw [hl] at ht; cases ht
  | ok t' => rw [hl] at ht; cases ht; rfl

theorem layoutFor_safe {choice : LayoutChoice} (hw : c.Steady w)
    (hs : c.SettledAt (c.engine.originOf choice)) :
    c.Safe (c.engine.layoutFor choice) (fun r v => ∃ j, c.engine.Numbered j ∧
      r = c.chosenLayout choice j ∧
      ∀ t, r = .ok (some t) → c.engine.Held c.files v.registry (c.engine.originOf choice) t) w := by
  cases choice with
  | byDefault =>
    obtain ⟨j, hj⟩ := exists_numbered c.engine
    exact ⟨j, hj, rfl, fun t h => by cases h⟩
  | identity =>
    rw [layoutFor, Attempt.map_eq]
    exact map_some_safe hw identityLayout_safe rfl fun j => rfl
  | named name =>
    rw [layoutFor, Attempt.map_eq]
    exact map_some_safe hw (loadLayout_safe hw hs) rfl fun j => rfl

theorem loadDefault_safe (hw : c.Steady w) (hs : c.SettledAt (c.engine.originOf .byDefault)) :
    c.Safe (match c.engine.config.defaultLayoutName? with
      | some name => c.engine.loadLayout name
      | none => identityLayout : Attempt Compiled) (c.Loaded (c.engine.originOf .byDefault)) w := by
  unfold originOf at hs ⊢
  cases h : c.engine.config.defaultLayoutName? with
  | some name =>
    simp only [h] at hs ⊢
    exact loadLayout_safe hw hs
  | none =>
    exact identityLayout_safe

theorem Steady.storeDefault (hw : c.Steady w) {t : Compiled}
    (ht : c.engine.Held c.files w.registry (c.engine.originOf .byDefault) t) :
    c.Steady { w with cache := w.cache.setDefaultLayout t } where
  files := hw.files
  enabled := (Cache.enabled_setDefaultLayout ..).trans hw.enabled
  like := hw.like
  paths := hw.paths
  entries n entry hn := hw.entries n entry (Cache.get?_setDefaultLayout .. ▸ hn)
  cached n hn := (congrArg _ (Cache.get?_setDefaultLayout ..)).trans (hw.cached n hn)
  default t' ht' := by
    rw [Cache.defaultLayout?_setDefaultLayout] at ht'
    split at ht' <;> cases ht'
    exact ht
  partials := hw.partials
  scanned := hw.scanned

theorem defaultLayout_safe (hs : c.SettledAt (c.engine.originOf .byDefault)) :
    c.Safe c.engine.defaultLayout (fun r v => ∃ j, c.engine.Numbered j ∧
      r = (c.engine.load c.files (c.engine.originOf .byDefault) j).toOption ∧
      ∀ t, r = some t → c.engine.Held c.files v.registry (c.engine.originOf .byDefault) t) w := by
  unfold defaultLayout
  refine Program.Meets.bind (Program.Meets.request fun v _ hv => ⟨hv, .refl v, ?_⟩)
  rw [World.perform_recallDefault]
  cases hd : v.cache.defaultLayout? with
  | some t =>
    have hheld := hv.default t hd
    obtain ⟨j, hj, hl⟩ := hheld.load
    refine ⟨j, hj, hl ▸ rfl, fun t' ht' => ?_⟩
    cases ht'
    exact hheld
  | none =>
    refine Safe.bind hv (loadDefault_safe hv hs) fun r u hr hu _ => ?_
    obtain ⟨j, hj, rfl, hh⟩ := hr
    cases hl : c.engine.load c.files (c.engine.originOf .byDefault) j with
    | error err => exact ⟨j, hj, hl ▸ rfl, fun t ht => by cases ht⟩
    | ok t =>
      refine Program.Meets.bind (Program.Meets.request fun x hx hix => ?_)
      have hheld := hx.held _ t (hh t hl)
      refine ⟨hix.storeDefault hheld, .of_registry rfl fun n hn =>
        (congrArg _ (Cache.get?_setDefaultLayout ..)).trans hn, j, hj, hl ▸ rfl, fun t' ht' => ?_⟩
      cases ht'
      exact hheld

/-! ## Entries of the cache -/

/-- What the entry of a view is with a choice of layout. -/
def chosenEntry (c : Setting) (name : String) (choice : LayoutChoice) (i j : Option Nat) :
    Except ViewError CacheEntry := do
  let view ← c.engine.load c.files (.view name) i
  let layout ← c.chosenLayout choice j
  pure ⟨view, layout⟩

theorem Records.layout_of_ne {r : Registry} {name : String} {choice : LayoutChoice}
    {entry : CacheEntry} (h : c.Records r name choice entry) (hc : choice ≠ .byDefault) :
    ∃ t, entry.layout = some t ∧ c.engine.Held c.files r (c.engine.originOf choice) t := by
  have hl := h.layout
  cases choice with
  | byDefault => exact absurd rfl hc
  | identity => exact hl
  | named name => exact hl

theorem Records.eq {r : Registry} {name : String} {choice : LayoutChoice} {entry : CacheEntry}
    (h : c.Records r name choice entry) : ∃ i j, c.engine.Numbered i ∧ c.engine.Numbered j ∧
      .ok entry = c.chosenEntry name choice i j := by
  obtain ⟨i, hi, hv⟩ := h.view.load
  have hlayout : ∃ j, c.engine.Numbered j ∧ c.chosenLayout choice j = .ok entry.layout := by
    by_cases hc : choice = .byDefault
    · subst hc
      exact ⟨i, hi, congrArg _ (Eq.symm h.layout)⟩
    · obtain ⟨t, ht, hh⟩ := h.layout_of_ne hc
      obtain ⟨j, hj, hload⟩ := hh.load
      refine ⟨j, hj, ?_⟩
      rw [chosenLayout_of_ne hc, hload, ht]
      rfl
  obtain ⟨j, hj, hl⟩ := hlayout
  refine ⟨i, j, hi, hj, ?_⟩
  rw [chosenEntry, hv, hl]
  rfl

/-- The entry of a view that was loaded with the layout of a choice. -/
theorem records_of_chosenLayout {r : Registry} {name : String} {choice : LayoutChoice}
    {t : Compiled} {layout : Option Compiled} {j : Option Nat}
    (hf : c.engine.found c.files name = true) (ht : c.engine.Held c.files r (.view name) t)
    (hl : .ok layout = c.chosenLayout choice j)
    (hh : ∀ u, layout = some u → c.engine.Held c.files r (c.engine.originOf choice) u) :
    c.Records r name choice ⟨t, layout⟩ := by
  refine ⟨hf, ht, ?_⟩
  have some_of {x : Except ViewError Compiled} (hx : .ok layout = x.map some) :
      ∃ u, layout = some u := by
    cases x with
    | error err => cases hx
    | ok u => cases hx; exact ⟨u, rfl⟩
  cases choice with
  | byDefault => cases hl; rfl
  | identity =>
    rw [chosenLayout_of_ne (by simp)] at hl
    exact (some_of hl).imp fun u hu => ⟨hu, hh u hu⟩
  | named name =>
    rw [chosenLayout_of_ne (by simp)] at hl
    exact (some_of hl).imp fun u hu => ⟨hu, hh u hu⟩

theorem Steady.storeEntry (hw : c.Steady w) {name : String} {choice : LayoutChoice}
    {entry : CacheEntry} (hc : c.chosen name = some choice)
    (he : c.Records w.registry name choice entry) :
    c.Steady { w with cache := w.cache.insert name entry } where
  files := hw.files
  enabled := (Cache.enabled_insert ..).trans hw.enabled
  like := hw.like
  paths := hw.paths
  entries n other hn := by
    by_cases hon : w.cache.enabled = true
    · rw [Cache.get?_insert _ _ _ _ hon] at hn
      split at hn
      · rename_i heq
        subst heq
        cases hn
        exact ⟨choice, hc, he⟩
      · exact hw.entries n other hn
    · rw [Cache.get?_of_disabled _ _ ((Cache.enabled_insert ..).trans (by simpa using hon))] at hn
      cases hn
  cached n hn := Cache.isSome_get?_insert (hw.cached n hn)
  default t ht := hw.default t (Cache.defaultLayout?_insert .. ▸ ht)
  partials := hw.partials
  scanned := hw.scanned

theorem entryFor_safe {name : String} {locals : Fields} {choice : LayoutChoice}
    (hf : c.engine.found c.files name = true) (hc : c.chosen name = some choice)
    (hown : c.cached name ∨ ∀ text, c.engine.textOf c.files (.view name) = .ok text →
      chooseLayout locals text = choice)
    (hsv : c.SettledAt (.view name)) (hsl : c.SettledAt (c.engine.originOf choice)) :
    c.Safe (c.engine.entryFor name (c.engine.resolver.templatePath name) locals) (fun r v =>
      (∃ i j, c.engine.Numbered i ∧ c.engine.Numbered j ∧ r = c.chosenEntry name choice i j) ∧
      ∀ entry, r = .ok entry → c.Records v.registry name choice entry ∧
        (c.engine.config.caching = true → (v.cache.get? name).isSome = true)) w := by
  rw [entryFor_eq]
  refine fun v hl hv => ⟨hv, .refl v, ?_⟩
  rw [World.perform_recallEntry]
  cases hg : v.cache.get? name with
  | some entry =>
    obtain ⟨choice', hc', hr⟩ := hv.entries name entry hg
    obtain rfl := Option.some.inj (hc.symm.trans hc')
    obtain ⟨i, j, hi, hj, he⟩ := hr.eq
    refine ⟨⟨i, j, hi, hj, he⟩, fun other ho => ?_⟩
    cases ho
    refine ⟨hr, fun _ => ?_⟩
    show (v.cache.get? name).isSome = true
    rw [hg]
    rfl
  | none =>
    have hown := hown.resolve_left fun hcached => by
      have := hv.cached name hcached
      rw [hg] at this
      cases this
    refine Safe.attempt hv (loadFile_safe (o := .view name) rfl hsv)
      (fun a u hu hsu _ => ?_) fun err u hu => ?_
    · obtain ⟨template, text⟩ := a
      obtain ⟨⟨i, hi, hload, hheld⟩, htext⟩ := hu
      rw [hown text (htext _ _ rfl)]
      refine Safe.attempt hsu (layoutFor_safe hsu hsl) (fun layout x hx hsx hlx => ?_)
        fun err x hx => ?_
      · obtain ⟨j, hj, hlayout, hh⟩ := hx
        refine Program.Meets.bind (Program.Meets.request fun y hy hiy => ?_)
        have hrec : c.Records y.registry name choice ⟨template, layout⟩ :=
          records_of_chosenLayout hf (hy.held _ _ (hlx.held _ _ (hheld _ rfl))) hlayout
            fun t ht => hy.held _ _ (hh t (ht ▸ rfl))
        refine ⟨hiy.storeEntry hc hrec, .of_registry rfl fun n hn => Cache.isSome_get?_insert hn,
          ⟨i, j, hi, hj, ?_⟩, fun entry he => ?_⟩
        · rw [chosenEntry, ← hload, ← hlayout]
          rfl
        · cases he
          refine ⟨hrec, fun hon => ?_⟩
          rw [World.perform_storeEntry]
          show ((Cache.insert ..).get? name).isSome = true
          rw [Cache.get?_insert _ _ _ _ (hiy.enabled.trans hon), if_pos rfl]
          rfl
      · obtain ⟨j, hj, hlayout, -⟩ := hx
        refine ⟨⟨i, j, hi, hj, ?_⟩, fun entry he => by cases he⟩
        rw [chosenEntry, ← hload, ← hlayout]
        rfl
    · obtain ⟨⟨i, hi, hload, -⟩, -⟩ := hu
      refine ⟨⟨i, i, hi, hi, ?_⟩, fun entry he => by cases he⟩
      rw [chosenEntry, ← hload]
      rfl

/-! ## Preparing -/

/-- What is prepared with a choice of layout stands in the registry, and governed partials are
those of the scan. -/
structure Ready (c : Setting) (logical : String) (choice : LayoutChoice) (p : Prepared)
    (w : World) : Prop where
  view : c.engine.Held c.files w.registry (.view logical) p.view
  layout : ∀ t, p.layout = some t → c.engine.Held c.files w.registry (c.engine.originOf choice) t
  settled : ∀ name, c.governed name →
    w.registry.templates.get? name = (c.engine.scanned c.base c.files).get? name

theorem Ready.later {logical : String} {choice : LayoutChoice} {p : Prepared} {v : World}
    (h : c.Ready logical choice p w) (hl : c.Later w v) : c.Ready logical choice p v where
  view := hl.held _ _ h.view
  layout t ht := hl.held _ _ (h.layout t ht)
  settled name hg := hl.settled name hg (h.settled name hg)

theorem plan_of_error {logical : String} {choice : LayoutChoice} {i j : Option Nat}
    {err : ViewError} (hf : c.engine.found c.files logical = true)
    (hr : .error err = c.chosenEntry logical choice i j) :
    c.engine.plan c.files logical choice i j = .error err := by
  rw [plan, if_pos hf]
  rw [chosenEntry] at hr
  cases hv : c.engine.load c.files (.view logical) i with
  | error err' =>
    rw [hv] at hr
    cases hr
    rfl
  | ok t =>
    rw [hv] at hr
    by_cases hc : choice = .byDefault
    · subst hc
      cases hr
    · rw [chosenLayout_of_ne hc] at hr
      rw [planLayout_of_ne hc]
      cases hl : c.engine.load c.files (c.engine.originOf choice) j with
      | error err' => rw [hl] at hr; cases hr; rfl
      | ok l => rw [hl] at hr; cases hr

theorem chosenEntry_eq_ok {logical : String} {choice : LayoutChoice} {i j : Option Nat}
    {entry : CacheEntry} (h : .ok entry = c.chosenEntry logical choice i j) :
    c.engine.load c.files (.view logical) i = .ok entry.template ∧
      c.chosenLayout choice j = .ok entry.layout := by
  rw [chosenEntry] at h
  cases hv : c.engine.load c.files (.view logical) i with
  | error err => rw [hv] at h; cases h
  | ok t =>
    cases hl : c.chosenLayout choice j with
    | error err => rw [hv, hl] at h; cases h
    | ok l => rw [hv, hl] at h; cases h; exact ⟨rfl, rfl⟩

theorem plan_of_view {logical : String} {choice : LayoutChoice} {i j : Option Nat} {t : Compiled}
    {layout : Option Compiled} (hf : c.engine.found c.files logical = true)
    (hv : c.engine.load c.files (.view logical) i = .ok t)
    (hl : c.engine.planLayout c.files choice j = .ok layout) :
    c.engine.plan c.files logical choice i j = .ok ⟨t, layout⟩ := by
  rw [plan, if_pos hf, hv, hl]
  rfl

theorem assemble_meets {R G : World → World → Prop} (merged : Fields) {logical : String}
    {choice : LayoutChoice} (hw : c.Steady w) (hR : ∀ u v, R u v → c.Later u v)
    (hG : ∀ u v, c.Later u v → G u v) (hset : ∀ name, c.governed name →
      w.registry.templates.get? name = (c.engine.scanned c.base c.files).get? name)
    (hf : c.engine.found c.files logical = true) (hc : c.chosen logical = some choice)
    (hown : c.cached logical ∨ ∀ text, c.engine.textOf c.files (.view logical) = .ok text →
      chooseLayout merged text = choice)
    (hsv : c.SettledAt (.view logical)) (hsl : c.SettledAt (c.engine.originOf choice)) :
    Program.Meets c.Steady R G (fun r v => c.Steady v ∧
      (∃ i j, c.engine.Numbered i ∧ c.engine.Numbered j ∧
        r = c.engine.plan c.files logical choice i j) ∧
      ∀ p, r = .ok p → c.Ready logical choice p v ∧
        (c.engine.config.caching = true → (v.cache.get? logical).isSome = true))
      (c.engine.assemble logical merged) w := by
  rw [assemble_eq]
  refine Program.Meets.attempt (((entryFor_safe hf hc hown hsv hsl).meets hR hG hw).mono ?_)
  rintro r x ⟨⟨⟨i, j, hi, hj, hr⟩, hrec⟩, hx, hlx⟩
  have hsetx := fun name hg => hlx.settled name hg (hset name hg)
  cases r with
  | error err => exact ⟨hx, ⟨i, j, hi, hj, (plan_of_error hf hr).symm⟩, fun p hp => by cases hp⟩
  | ok entry =>
    obtain ⟨template, layout⟩ := entry
    obtain ⟨hrec, hcached⟩ := hrec _ rfl
    obtain ⟨hview, hlayout⟩ := chosenEntry_eq_ok hr
    by_cases hcd : choice = .byDefault
    · subst hcd
      obtain rfl : layout = none := hrec.layout
      refine Program.Meets.bind (((defaultLayout_safe hsl).meets hR hG hx).mono ?_)
      rintro layout y ⟨⟨j', hj', hd, hheld⟩, hy, hly⟩
      refine ⟨hy, ⟨i, j', hi, hj', (plan_of_view hf hview ?_).symm⟩, fun p hp => ?_⟩
      · rw [hd]
        rfl
      · cases hp
        exact ⟨⟨hly.held _ _ hrec.view, hheld,
          fun name hg => hly.settled name hg (hsetx name hg)⟩, fun hon => hly.kept _ (hcached hon)⟩
    · obtain ⟨t, rfl, hheld⟩ := hrec.layout_of_ne hcd
      rw [chosenLayout_of_ne hcd] at hlayout
      refine ⟨hx, ⟨i, j, hi, hj, (plan_of_view hf hview ?_).symm⟩, fun p hp => ?_⟩
      · rw [planLayout_of_ne hcd, hlayout]
      · cases hp
        refine ⟨⟨hrec.view, fun u hu => ?_, hsetx⟩, hcached⟩
        cases hu
        exact hheld

/-- **What a render prepares.** -/
theorem prepare_meets {R G : World → World → Prop} {logical : String} {merged : Fields}
    {choice : LayoutChoice} (hw : c.Steady w) (hR : ∀ u v, R u v → c.Later u v)
    (hG : ∀ u v, c.Later u v → G u v)
    (hscan : ∀ w, c.Steady w → c.engine.partials.ensureScanned.Meets c.Steady R G (fun _ v =>
      c.Steady v ∧ ∀ name, c.governed name →
        v.registry.templates.get? name = (c.engine.scanned c.base c.files).get? name) w)
    (hc : c.chosen logical = some choice)
    (hown : c.cached logical ∨ ∀ text, c.engine.textOf c.files (.view logical) = .ok text →
      chooseLayout merged text = choice)
    (hsv : c.SettledAt (.view logical)) (hsl : c.SettledAt (c.engine.originOf choice)) :
    Program.Meets c.Steady R G (fun r v => c.Steady v ∧
      (∃ i j, c.engine.Numbered i ∧ c.engine.Numbered j ∧
        r = c.engine.plan c.files logical choice i j) ∧
      ∀ p, r = .ok p → c.Ready logical choice p v ∧
        (c.engine.config.caching = true → (v.cache.get? logical).isSome = true))
      (c.engine.prepare logical merged) w := by
  rw [prepare_eq]
  refine Program.Meets.bind (((resolve_safe logical).meets hR hG hw).mono ?_)
  rintro path v ⟨rfl, hv, -⟩
  by_cases hf : c.engine.found c.files logical = true
  · rw [if_pos hf]
    refine Program.Meets.bind ((hscan v hv).mono ?_)
    rintro - u ⟨hu, hset⟩
    have hrest := assemble_meets merged hu hR hG hset hf hc hown hsv hsl
    rw [assemble_eq] at hrest
    exact hrest
  · obtain ⟨i, hi⟩ := exists_numbered c.engine
    rw [if_neg hf]
    refine ⟨hv, ⟨i, i, hi, hi, ?_⟩, fun p hp => by cases hp⟩
    rw [plan, if_neg hf]
    rfl

end Setting

end Views
