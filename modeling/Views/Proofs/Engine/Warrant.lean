import Views.Proofs.Engine.Outcome
import Views.Proofs.Program.Trace

/-!
# The order of a render's requests

What a render asks for is warranted by what it did before (`Engine.Warranted`): it compiles what it
has read, under a number that it has just drawn; it looks for an entry only when the path of the
view is known (`Engine.Located`), and stores one only if it found none, and only what it compiled
itself (`Engine.Filed`). Which templates it may execute is left open (`X`), since
preparing executes nothing. Each program of the engine up to `Engine.prepare` has one statement
here, which holds whatever other programs do in between.
-/

set_option autoImplicit false

namespace Views

namespace Engine

variable (e : Engine)

/-! ## The rule -/

/-- The number in a key, if keys have numbers, was drawn in the step before. -/
def Drawn (past : List Step) : Option Nat → Prop
  | some n => e.config.caching = true ∧ past.getLast? = some ⟨.nextNumber, n⟩
  | none => e.config.caching = false

/-- The path of a view is known, if paths are kept: it was kept before, or is now. -/
inductive Located (past : List Step) (name : String) : Prop
  | absolute (h : Files.isAbsolute name = true)
  | uncached (h : e.config.caching = false)
  | recalled {path : String} (h : (⟨.recallPath name, some path⟩ : Step) ∈ past)
  | stored {path : String} (h : (⟨.storePath name path, ()⟩ : Step) ∈ past)

/-- What may be compiled under a key after some steps. -/
inductive MayCompile (past : List Step) : String → String → Prop
  | file {o : Origin} {kind : FileKind} {path : String} {i : Option Nat} {source : String}
      (ho : e.fileOf o = some (kind, path)) (hr : (⟨.read path, .ok source⟩ : Step) ∈ past)
      (hi : e.Drawn past i) : MayCompile past (keyOf kind path i) source
  | identity : MayCompile past identityKey identitySource

/-- A template was compiled from the text of an origin; that of a file was read before. -/
inductive Made (past : List Step) : Origin → String → Compiled → Prop
  | file {o : Origin} {kind : FileKind} {path : String} {i : Option Nat} {text : String}
      {t : Compiled} (ho : e.fileOf o = some (kind, path)) (hi : e.Numbered i)
      (h : List.Sublist [⟨.read path, .ok text⟩, ⟨.compile (keyOf kind path i) text, .ok t⟩] past) :
      Made past o text t
  | identity {t : Compiled}
      (h : (⟨.compile identityKey identitySource, .ok t⟩ : Step) ∈ past) :
      Made past .identity identitySource t

/-- An entry was compiled from a text of the view and from the layout that it chooses. -/
structure Filed (past : List Step) (name : String) (locals : Fields) (text : String)
    (entry : CacheEntry) : Prop where
  view : e.Made past (.view name) text entry.template
  layout : match chooseLayout locals text with
    | .byDefault => entry.layout = none
    | choice => ∃ text t, entry.layout = some t ∧ e.Made past (e.originOf choice) text t

/-- An entry was recalled, or the render has made it itself. -/
def EntryOf (past : List Step) (name : String) (locals : Fields) (entry : CacheEntry) : Prop :=
  (⟨.recallEntry name, some entry⟩ : Step) ∈ past ∧ e.config.caching = true ∨
    ∃ text, e.Filed past name locals text entry

/-- The default layout was recalled, or the render has compiled it itself. -/
def DefaultOf (past : List Step) (t : Compiled) : Prop :=
  (⟨.recallDefault, some t⟩ : Step) ∈ past ∧ e.config.caching = true ∨
    ∃ text, e.Made past (e.originOf .byDefault) text t

/-- A request is warranted by the steps before it; `X` is about what is executed. -/
def Warranted (X : List Step → Compiled → Fields → Scope → Prop) (past : List Step) :
    Request → Prop
  | .compile key source => e.MayCompile past key source
  | .execute t locals scope => X past t locals scope
  | .storePath name path => path = e.resolver.templatePath name
  | .recallEntry name => e.Located past name
  | .storeEntry name entry => (⟨.recallEntry name, none⟩ : Step) ∈ past ∧
      ∃ locals text, e.Filed past name locals text entry
  | .storeDefault t => (⟨.recallDefault, none⟩ : Step) ∈ past ∧
      ∃ text, e.Made past (e.originOf .byDefault) text t
  | _ => True

/-- The answers that the stores of an engine can give. -/
def Answers : (r : Request) → r.Answer → Prop
  | .recallPath name, answer => ∀ path, answer = some path → path = e.resolver.templatePath name
  | .recallEntry _, answer => answer = none ∨ e.config.caching = true
  | .recallDefault, answer => answer = none ∨ e.config.caching = true
  | _, _ => True

/-- The program keeps to the rule and ends with `Q`. -/
def Orderly {α : Type} (X : List Step → Compiled → Fields → Scope → Prop)
    (Q : α → List Step → Prop) (p : Program α) (past : List Step) : Prop :=
  p.Keeps e.Answers (e.Warranted X) Q past

variable {e} {X : List Step → Compiled → Fields → Scope → Prop} {past past' : List Step}

theorem Located.mono {name : String} (h : e.Located past name) (hp : past <+: past') :
    e.Located past' name := by
  cases h with
  | absolute h => exact .absolute h
  | uncached h => exact .uncached h
  | recalled h => exact .recalled (hp.subset h)
  | stored h => exact .stored (hp.subset h)

theorem Made.mono {o : Origin} {text : String} {t : Compiled} (h : e.Made past o text t)
    (hp : past <+: past') : e.Made past' o text t := by
  cases h with
  | file ho hi h => exact .file ho hi (h.trans hp.sublist)
  | identity h => exact .identity (hp.subset h)

theorem Made.compiled {o : Origin} {text : String} {t : Compiled} (h : e.Made past o text t) :
    ∃ key, KeyLike key ∧ (⟨.compile key text, .ok t⟩ : Step) ∈ past := by
  cases h with
  | file ho hi h =>
    exact ⟨_, keyLike_keyOf .., h.subset (List.mem_cons_of_mem _ List.mem_cons_self)⟩
  | identity h => exact ⟨_, keyLike_identityKey, h⟩

/-- Under the key of the layout that writes the body alone only its own text is compiled. -/
theorem MayCompile.eq_identitySource {text : String} (hon : e.config.caching = true)
    (h : e.MayCompile past identityKey text) : text = identitySource := by
  generalize hk : identityKey = key at h
  cases h with
  | @file o kind path i source ho hr hi =>
    cases i with
    | none => cases hi.symm.trans hon
    | some n => exact absurd hk (identityKey_ne_keyOf_some kind path n)
  | identity => rfl

theorem Filed.mono {name : String} {locals : Fields} {text : String} {entry : CacheEntry}
    (h : e.Filed past name locals text entry) (hp : past <+: past') :
    e.Filed past' name locals text entry := by
  refine ⟨h.view.mono hp, ?_⟩
  have hl := h.layout
  cases hc : chooseLayout locals text with
  | byDefault => rwa [hc] at hl
  | identity =>
    rw [hc] at hl
    exact hl.imp fun _ => .imp fun _ ht => ⟨ht.1, ht.2.mono hp⟩
  | named name =>
    rw [hc] at hl
    exact hl.imp fun _ => .imp fun _ ht => ⟨ht.1, ht.2.mono hp⟩

/-! ## Composition -/

namespace Orderly

variable {α β : Type}

theorem bind {p : Program α} {f : α → Program β} {Q' : α → List Step → Prop}
    {Q : β → List Step → Prop} (hp : e.Orderly X Q' p past)
    (hf : ∀ a past', Q' a past' → past <+: past' → e.Orderly X Q (f a) past') :
    e.Orderly X Q (p.bind f) past := Program.Keeps.andThen hp hf

theorem attempt {x : Attempt α} {f : α → Attempt β} {Q' : Except ViewError α → List Step → Prop}
    {Q : Except ViewError β → List Step → Prop} (hx : e.Orderly X Q' x past)
    (hok : ∀ a past', Q' (.ok a) past' → past <+: past' → e.Orderly X Q (f a) past')
    (herr : ∀ err past', Q' (.error err) past' → Q (.error err) past') :
    e.Orderly X Q (Program.bind x (Attempt.after f)) past := Program.Keeps.attemptThen hx hok herr

end Orderly

end Engine

/-! ## Partials -/

namespace PartialSource

open Program

variable {A : (r : Request) → r.Answer → Prop} {D : List Step → Request → Prop}
  {P : List Step → Prop} {past : List Step} (s : PartialSource)

theorem registerFiles_keeps {paths : List String} (hread : ∀ path, Free D P (.read path))
    (hregister : ∀ path ∈ paths, ∀ source, Free D P (.registerPartial (s.partialName path) source))
    (hp : P past) : (s.registerFiles paths).Keeps A D (fun _ past' => P past') past := by
  induction paths generalizing past with
  | nil => exact hp
  | cons path rest ih =>
    have hfile : Program.Keeps A D (fun _ past' => P past') (s.registerFile path) past := by
      rw [registerFile, Attempt.bind_eq]
      refine .attempt ((hread _).keeps hp fun text past' hp' => ?_)
      cases text with
      | error err => exact hp'
      | ok text => exact (hregister path List.mem_cons_self text).keeps hp' fun _ _ h => h
    refine .bind (hfile.mono fun r past' hp' => ?_)
    cases r with
    | error err => exact hp'
    | ok _ => exact .bind (ih (fun p hm => hregister p (List.mem_cons_of_mem _ hm)) hp')

theorem registerNamed_keeps {names : List String} (hread : ∀ path, Free D P (.read path))
    (hregister : ∀ name ∈ names, ∀ source,
      Free D P (.registerPartial (s.partialName (name ++ s.extname)) source))
    (hp : P past) : (s.registerNamed names).Keeps A D (fun _ past' => P past') past := by
  unfold registerNamed
  split
  · refine Keeps.bind (p := s.registerFiles _) (s.registerFiles_keeps hread (fun path hm => ?_) hp)
    obtain ⟨name, hn, rfl⟩ := List.mem_map.1 hm
    exact hregister name hn
  · exact hp

section

variable (hread : ∀ path, Free D P (.read path))
  (hregister : ∀ name source, Free D P (.registerPartial name source))
  (hlist : ∀ root ending, Free D P (.list root ending)) (hstore : Free D P .storeScan)

include hread hregister hlist hstore

theorem registerAll_keeps (hp : P past) :
    s.registerAll.Keeps A D (fun _ past' => P past') past := by
  unfold registerAll
  split
  · refine (hlist _ _).keeps hp fun listed past₁ hp₁ => ?_
    cases listed with
    | error err => exact hp₁
    | ok paths =>
      refine Keeps.bind (p := s.registerFiles paths)
        ((s.registerFiles_keeps hread (fun _ _ => hregister _) hp₁).mono fun r past₂ hp₂ => ?_)
      obtain ⟨n, all⟩ := r
      cases all with
      | false => exact hp₂
      | true => exact hstore.keeps hp₂ fun _ _ h => h
  · exact hp

theorem ensureScanned_keeps (hrecall : Free D P .recallScan) (hp : P past) :
    s.ensureScanned.Keeps A D (fun _ past' => P past') past := by
  unfold ensureScanned
  split
  · refine hrecall.keeps hp fun scanned past₁ hp₁ => ?_
    show Keeps A D _ (if scanned = true then _ else _) _
    split
    · exact hp₁
    · exact Keeps.bind (s.registerAll_keeps hread hregister hlist hstore hp₁)
  · exact hp

end

end PartialSource

namespace Engine

variable {e : Engine} {X : List Step → Compiled → Fields → Scope → Prop} {past : List Step}

theorem registerAll_orderly : e.Orderly X (fun _ _ => True) e.partials.registerAll past :=
  e.partials.registerAll_keeps (P := fun _ => True) (fun _ _ _ => ⟨trivial, fun _ => trivial⟩)
    (fun _ _ _ _ => ⟨trivial, fun _ => trivial⟩) (fun _ _ _ _ => ⟨trivial, fun _ => trivial⟩)
    (fun _ _ => ⟨trivial, fun _ => trivial⟩) trivial

theorem ensureScanned_orderly : e.Orderly X (fun _ _ => True) e.partials.ensureScanned past :=
  e.partials.ensureScanned_keeps (P := fun _ => True) (fun _ _ _ => ⟨trivial, fun _ => trivial⟩)
    (fun _ _ _ _ => ⟨trivial, fun _ => trivial⟩) (fun _ _ _ _ => ⟨trivial, fun _ => trivial⟩)
    (fun _ _ => ⟨trivial, fun _ => trivial⟩) (fun _ _ => ⟨trivial, fun _ => trivial⟩) trivial

theorem registerNamed_orderly (names : List String) :
    e.Orderly X (fun _ _ => True) (e.partials.registerNamed names) past :=
  e.partials.registerNamed_keeps (P := fun _ => True) (fun _ _ _ => ⟨trivial, fun _ => trivial⟩)
    (fun _ _ _ _ _ => ⟨trivial, fun _ => trivial⟩) trivial

theorem registerReferenced_orderly (text : String) :
    e.Orderly X (fun _ _ => True) (e.registerReferenced text) past := by
  unfold registerReferenced
  split
  · trivial
  · split
    · split
      · trivial
      · exact Orderly.bind (registerNamed_orderly _) fun _ _ _ _ => trivial
    · trivial

/-! ## Resolving and compiling -/

theorem resolve_orderly (name : String) : e.Orderly X (fun r past' => ∀ path, r = some path →
    path = e.resolver.templatePath name ∧ e.Located past' name) (e.resolver.resolve name) past := by
  unfold Resolver.resolve
  split
  · rename_i ha
    rintro path ⟨⟩
    exact ⟨(Setting.templatePath_of_isAbsolute e ha).symm, .absolute ha⟩
  · refine ⟨trivial, fun known hk => ?_⟩
    cases known with
    | some path =>
      rintro path' ⟨⟩
      exact ⟨hk path rfl, .recalled (List.mem_append_right _ List.mem_cons_self)⟩
    | none =>
      refine ⟨trivial, fun there _ => ?_⟩
      show e.Orderly X _ (if there = true then _ else _) _
      split
      · split
        · refine ⟨rfl, fun _ _ path hp => ?_⟩
          cases hp
          exact ⟨rfl, .stored (List.mem_append_right _ List.mem_cons_self)⟩
        · rename_i hoff
          rintro path ⟨⟩
          exact ⟨rfl, .uncached (by simpa [resolver] using hoff)⟩
      · rintro path ⟨⟩

theorem compileKey_orderly (kind : FileKind) (path : String) :
    e.Orderly X (fun key past' => ∃ i, key = keyOf kind path i ∧ e.Drawn past' i ∧ e.Numbered i)
      (e.compileKey kind path) past := by
  unfold compileKey
  split
  · rename_i hon
    exact ⟨trivial, fun n _ => ⟨some n, rfl, ⟨hon, List.getLast?_concat⟩, hon.symm⟩⟩
  · rename_i hoff
    have hoff : e.config.caching = false := by simpa using hoff
    exact ⟨none, rfl, hoff, hoff.symm⟩

theorem loadFile_orderly {o : Origin} {kind : FileKind} {path : String}
    (ho : e.fileOf o = some (kind, path)) : e.Orderly X (fun r past' =>
      ∀ t text, r = .ok (t, text) → e.Made past' o text t) (e.loadFile kind path) past := by
  rw [loadFile_eq, Program.request_bind]
  refine ⟨trivial, fun text _ => ?_⟩
  cases text with
  | error err => exact fun t text h => by cases h
  | ok text =>
    rw [Attempt.after_ok, loadText_eq]
    refine Orderly.bind (registerReferenced_orderly text) fun _ past₁ _ hp₁ => ?_
    refine Orderly.bind (compileKey_orderly kind path) fun key past₂ hk hp₂ => ?_
    obtain ⟨i, rfl, hi, hn⟩ := hk
    -- Partials may have been registered since the text was read, and a number drawn.
    have hread : List.Sublist [(⟨.read path, .ok text⟩ : Step)] past₂ :=
      List.singleton_sublist.2 ((hp₁.trans hp₂).subset (List.mem_append_right _ List.mem_cons_self))
    refine ⟨.file ho (List.singleton_sublist.1 hread) hi, fun compiled _ => ?_⟩
    cases compiled with
    | error err => exact fun t text h => by cases h
    | ok t =>
      rintro t' text' ⟨⟩
      exact .file ho hn (hread.append (List.Sublist.refl [_]))

theorem loadLayout_orderly (name : String) : e.Orderly X (fun r past' =>
    ∀ t, r = .ok t → ∃ text, e.Made past' (.layout name) text t) (e.loadLayout name) past := by
  rw [loadLayout_eq]
  refine Orderly.attempt (loadFile_orderly (o := .layout name) rfl) (fun a past' h _ => ?_)
    fun err past' _ t h => by cases h
  rintro t ⟨⟩
  exact ⟨a.2, h a.1 a.2 rfl⟩

theorem identityLayout_orderly : e.Orderly X (fun r past' =>
    ∀ t, r = .ok t → ∃ text, e.Made past' .identity text t) identityLayout past := by
  refine ⟨.identity, fun compiled _ => ?_⟩
  rintro t rfl
  exact ⟨_, .identity (List.mem_append_right _ List.mem_cons_self)⟩

/-! ## Layouts -/

theorem layoutFor_orderly (choice : LayoutChoice) : e.Orderly X (fun r past' =>
    ∀ layout, r = .ok layout → match choice with
      | .byDefault => layout = none
      | choice => ∃ text t, layout = some t ∧ e.Made past' (e.originOf choice) text t)
    (e.layoutFor choice) past := by
  cases choice with
  | byDefault => rintro layout ⟨⟩; rfl
  | identity =>
    rw [layoutFor, Attempt.map_eq]
    refine .bind identityLayout_orderly fun r past' h _ layout hl => ?_
    cases r with
    | error err => cases hl
    | ok t =>
      cases hl
      obtain ⟨text, ht⟩ := h t rfl
      exact ⟨text, t, rfl, ht⟩
  | named name =>
    rw [layoutFor, Attempt.map_eq]
    refine .bind (loadLayout_orderly name) fun r past' h _ layout hl => ?_
    cases r with
    | error err => cases hl
    | ok t =>
      cases hl
      obtain ⟨text, ht⟩ := h t rfl
      exact ⟨text, t, rfl, ht⟩

theorem loadDefault_orderly : e.Orderly X (fun r past' =>
    ∀ t, r = .ok t → ∃ text, e.Made past' (e.originOf .byDefault) text t)
    (match e.config.defaultLayoutName? with
      | some name => e.loadLayout name
      | none => identityLayout : Attempt Compiled) past := by
  unfold originOf
  cases e.config.defaultLayoutName? with
  | some name => exact loadLayout_orderly name
  | none => exact identityLayout_orderly

theorem defaultLayout_orderly : e.Orderly X (fun r past' => ∀ t, r = some t → e.DefaultOf past' t)
    e.defaultLayout past := by
  unfold defaultLayout
  refine ⟨trivial, fun known hk => ?_⟩
  cases known with
  | some t =>
    rintro t' ⟨⟩
    exact .inl ⟨List.mem_append_right _ List.mem_cons_self, hk.resolve_left (by simp)⟩
  | none =>
    refine Orderly.bind (p := match e.config.defaultLayoutName? with
      | some name => e.loadLayout name
      | none => identityLayout) loadDefault_orderly fun r past' h hp => ?_
    cases r with
    | error err => exact fun t ht => by cases ht
    | ok t =>
      have hmade := h t rfl
      refine ⟨⟨hp.subset (List.mem_append_right _ List.mem_cons_self), hmade⟩, fun _ _ => ?_⟩
      rintro t' ⟨⟩
      exact .inr (hmade.imp fun text ht => ht.mono (List.prefix_append _ _))

/-! ## Entries -/

theorem entryFor_orderly {name : String} (hname : e.Located past name) (locals : Fields) :
    e.Orderly X (fun r past' => ∀ entry, r = .ok entry → e.EntryOf past' name locals entry)
      (e.entryFor name (e.resolver.templatePath name) locals) past := by
  rw [entryFor_eq]
  refine ⟨hname, fun known hk => ?_⟩
  cases known with
  | some entry =>
    rintro entry' ⟨⟩
    exact .inl ⟨List.mem_append_right _ List.mem_cons_self, hk.resolve_left (by simp)⟩
  | none =>
    refine Orderly.attempt (loadFile_orderly (o := .view name) rfl) (fun a past₁ hview hp₁ => ?_)
      fun err past' _ entry h => by cases h
    refine Orderly.attempt (layoutFor_orderly _) (fun layout past₂ hlayout hp₂ => ?_)
      fun err past' _ entry h => by cases h
    have hfiled : e.Filed past₂ name locals a.2 ⟨a.1, layout⟩ :=
      ⟨(hview a.1 a.2 rfl).mono hp₂, hlayout layout rfl⟩
    have hmiss := (hp₁.trans hp₂).subset (List.mem_append_right past List.mem_cons_self)
    refine ⟨⟨hmiss, locals, a.2, hfiled⟩, fun _ _ => ?_⟩
    rintro entry ⟨⟩
    exact .inr ⟨a.2, hfiled.mono (List.prefix_append _ _)⟩

/-! ## Renders -/

/-- What a render has prepared: an entry, with the default layout if the entry has none. -/
def Has (e : Engine) (q : Query) (past : List Step) (p : Prepared) : Prop :=
  ∃ entry, e.EntryOf past q.logical (e.merged q) entry ∧ p.view = entry.template ∧
    match entry.layout with
    | some layout => p.layout = some layout
    | none => ∀ t, p.layout = some t → e.DefaultOf past t

/-- What a render executes: the view that it has prepared, and then the layout around what the view
gave. -/
inductive Owes (e : Engine) (q : Query) (past : List Step) : Compiled → Fields → Scope → Prop
  | view {p : Prepared} (h : e.Has q past p) : Owes e q past p.view (e.merged q) (e.startScope q)
  | layout {p : Prepared} {t : Compiled} {body : String} {scope : Scope} (h : e.Has q past p)
      (ht : p.layout = some t) (hx : (⟨.execute p.view (e.merged q) (e.startScope q),
        (.ok body, scope)⟩ : Step) ∈ past) : Owes e q past t (e.layoutLocals q body) scope

theorem EntryOf.mono {past' : List Step} {name : String} {locals : Fields} {entry : CacheEntry}
    (h : e.EntryOf past name locals entry) (hp : past <+: past') :
    e.EntryOf past' name locals entry :=
  h.imp (fun h => ⟨hp.subset h.1, h.2⟩) fun h => h.imp fun _ ht => ht.mono hp

theorem DefaultOf.mono {past' : List Step} {t : Compiled} (h : e.DefaultOf past t)
    (hp : past <+: past') : e.DefaultOf past' t :=
  h.imp (fun h => ⟨hp.subset h.1, h.2⟩) fun h => h.imp fun _ ht => ht.mono hp

theorem Has.mono {past' : List Step} {q : Query} {p : Prepared} (h : e.Has q past p)
    (hp : past <+: past') : e.Has q past' p := by
  obtain ⟨entry, he, hv, hl⟩ := h
  refine ⟨entry, he.mono hp, hv, ?_⟩
  cases hc : entry.layout with
  | some layout => rwa [hc] at hl
  | none =>
    rw [hc] at hl
    exact fun t ht => (hl t ht).mono hp

/-- Without an entry to recall, the text that was read for the view has chosen the layout. -/
theorem Has.chosen {q : Query} {p : Prepared} (h : e.Has q past p)
    (hmiss : ∀ entry, (⟨.recallEntry q.logical, some entry⟩ : Step) ∈ past →
      e.config.caching = false) :
    ∃ text, e.Made past (.view q.logical) text p.view ∧ ∀ t, p.layout = some t →
      (∃ text', e.Made past (e.originOf (chooseLayout (e.merged q) text)) text' t) ∨
        chooseLayout (e.merged q) text = .byDefault ∧ e.DefaultOf past t := by
  obtain ⟨entry, hentry, hview, hlayout⟩ := h
  obtain ⟨text, htext, hchosen⟩ := hentry.resolve_left fun h => by
    cases (hmiss entry h.1).symm.trans h.2
  refine ⟨text, hview ▸ htext, fun t ht => ?_⟩
  split at hchosen
  · rename_i hd
    rw [hchosen] at hlayout
    exact .inr ⟨hd, hlayout t ht⟩
  · obtain ⟨text', t', hl, hmade⟩ := hchosen
    rw [hl] at hlayout
    obtain rfl := Option.some.inj (ht.symm.trans hlayout)
    exact .inl ⟨text', hmade⟩

theorem prepare_orderly (q : Query) : e.Orderly X (fun r past' => ∀ p, r = .ok p → e.Has q past' p)
    (e.prepare q.logical (e.merged q)) past := by
  rw [prepare_eq]
  refine Orderly.bind (resolve_orderly _) fun path past₁ hpath _ => ?_
  cases path with
  | none => exact fun p h => by cases h
  | some path =>
    obtain ⟨rfl, hlocated⟩ := hpath path rfl
    refine Orderly.bind ensureScanned_orderly fun _ past₂ _ hp₂ => ?_
    refine Orderly.attempt (entryFor_orderly (hlocated.mono hp₂) _) (fun entry past₃ hentry _ => ?_)
      fun err past' _ p h => by cases h
    have hentry := hentry entry rfl
    cases hl : entry.layout with
    | some layout =>
      rintro p ⟨⟩
      exact ⟨entry, hentry, rfl, by rw [hl]⟩
    | none =>
      refine Orderly.bind defaultLayout_orderly fun layout past₄ hlayout hp => ?_
      rintro p ⟨⟩
      exact ⟨entry, hentry.mono hp, rfl, by rw [hl]; exact hlayout⟩

/-- Executing a template takes one step. -/
theorem execute_keeps {A : (r : Request) → r.Answer → Prop} {D : List Step → Request → Prop}
    {t : Compiled} {locals : Fields} {scope : Scope} (h : D past (.execute t locals scope)) :
    Program.Keeps A D (fun r past' => ∀ out scope', r = .ok (out, scope') →
      past' = past ++ [⟨.execute t locals scope, (.ok out, scope')⟩])
      (execute t locals scope) past := by
  rw [execute_eq]
  refine ⟨h, fun answer _ => ?_⟩
  obtain ⟨result, scope'⟩ := answer
  cases result with
  | error err => exact fun _ _ h => by cases h
  | ok out =>
    rintro _ _ ⟨⟩
    rfl

theorem finish_orderly {q : Query} {p : Prepared} (h : e.Has q past p) :
    e.Orderly (e.Owes q) (fun _ _ => True) (e.finish q.logical (e.merged q) q.request p) past := by
  rw [finish_eq]
  refine Orderly.attempt (execute_keeps (.view h)) (fun a past₁ hx hp => ?_) fun _ _ _ => trivial
  obtain ⟨body, scope⟩ := a
  obtain rfl := hx body scope rfl
  cases hl : p.layout with
  | none => trivial
  | some layout =>
    have howes := Owes.layout (h.mono hp) hl (List.mem_append_right _ List.mem_cons_self)
    exact Orderly.attempt (execute_keeps howes) (fun _ _ _ _ => trivial) fun _ _ _ => trivial

/-- **A render keeps to the rule**, and executes what it has prepared. -/
theorem answer_orderly (q : Query) :
    e.Orderly (e.Owes q) (fun _ _ => True) (e.answer q) past := by
  rw [answer_bind]
  exact Orderly.attempt (prepare_orderly q) (fun p _ h _ => finish_orderly (h p rfl))
    fun _ _ _ => trivial

end Engine

end Views
