import Views.Proofs.Engine.Plan
import Views.Proofs.Program.Sharing

/-!
# The invariant of the stores

`Setting.Steady c w`: the files of `w` are those of the setting `c`, and what the stores hold agrees
with them. Kept paths are those of files that are there; a cached view and a cached default layout
were compiled from their files, and the registry holds them (`Engine.Held`); a governed name has the
template it started with or one of a scan, and after a complete scan that of the last file. The
numbers in keys play no part: two compilations under one key have one text (`fileOf_of_keyFor`).

`Setting.Later c w v`: what a render has relied on in `w` still stands in `v`. Every change of the
stores that a render makes keeps `Steady` and leads to a later world; `Setting.Safe` says so of a
program, among others of which it is true as well.
-/

set_option autoImplicit false

namespace Views

/-- The templates of the names that only a scan decides. -/
def Engine.scanned (e : Engine) (base : Registry) (files : Files.FileTree) : Table Template :=
  Table.union base.templates (e.partials.scan files)

/-- An engine on a registry and on files that do not change. -/
structure Setting where
  engine : Engine
  base : Registry
  files : Files.FileTree
  /-- The names whose templates only a scan decides. -/
  governed : String → Prop
  /-- The layouts that views are cached with. -/
  chosen : String → Option Engine.LayoutChoice
  /-- The views that are in the cache already. -/
  cached : String → Prop
  valid : engine.config.viewPath ≠ ""
  plain : ∀ name, governed name → ¬ Engine.KeyLike name

namespace Setting

open Engine

/-- Where no name is governed there is none to keep apart from the keys. -/
theorem plain_of_ungoverned (name : String) (h : False) : ¬ KeyLike name := h.elim

variable (c : Setting)

/-- A cache entry for a view and a choice of layout. -/
structure Records (r : Registry) (name : String) (choice : LayoutChoice) (entry : CacheEntry) :
    Prop where
  found : c.engine.found c.files name = true
  view : c.engine.Held c.files r (.view name) entry.template
  layout : match choice with
    | .byDefault => entry.layout = none
    | choice => ∃ t, entry.layout = some t ∧ c.engine.Held c.files r (c.engine.originOf choice) t

/-- The invariant of the stores (module doc). -/
structure Steady (w : World) : Prop where
  files : w.files = c.files
  enabled : w.cache.enabled = c.engine.config.caching
  like : c.base.Like w.registry
  paths : ∀ name path, w.paths.get? name = some path → c.engine.config.caching = true ∧
    path = c.engine.resolver.templatePath name ∧ c.files.isFile path = true
  entries : ∀ name entry, w.cache.get? name = some entry →
    ∃ choice, c.chosen name = some choice ∧ c.Records w.registry name choice entry
  cached : ∀ name, c.cached name → (w.cache.get? name).isSome = true
  default : ∀ t, w.cache.defaultLayout? = some t →
    c.engine.Held c.files w.registry (c.engine.originOf .byDefault) t
  partials : ∀ name, c.governed name →
    w.registry.templates.get? name = c.base.templates.get? name ∨
      ∃ t, (name, t) ∈ c.engine.partials.scan c.files ∧ w.registry.templates.get? name = some t
  scanned : w.scanned = true → ∀ name, c.governed name →
    w.registry.templates.get? name = (c.engine.scanned c.base c.files).get? name

/-- What stands in a world stands in a later one. -/
structure Later (w v : World) : Prop where
  held : ∀ o t, c.engine.Held c.files w.registry o t → c.engine.Held c.files v.registry o t
  kept : ∀ name, (w.cache.get? name).isSome = true → (v.cache.get? name).isSome = true
  named : c.engine.config.caching = false → ∀ text, ∀ entry ∈ c.engine.partials.named c.files text,
    w.registry.templates.get? entry.1 = some entry.2 →
    v.registry.templates.get? entry.1 = some entry.2
  settled : ∀ name, c.governed name →
    w.registry.templates.get? name = (c.engine.scanned c.base c.files).get? name →
    v.registry.templates.get? name = (c.engine.scanned c.base c.files).get? name

/-- The program keeps the stores steady, among others that do, and ends with `Q`. -/
def Safe {α : Type} (p : Program α) (Q : α → World → Prop) (w : World) : Prop :=
  p.Meets c.Steady c.Later c.Later Q w

variable {c}

theorem Later.of_registry {w v : World} (hr : v.registry = w.registry)
    (hk : ∀ name, (w.cache.get? name).isSome = true → (v.cache.get? name).isSome = true) :
    c.Later w v :=
  ⟨fun _ _ h => hr ▸ h, hk, fun _ _ _ _ h => hr ▸ h, fun _ _ h => hr ▸ h⟩

theorem Later.refl (w : World) : c.Later w w := .of_registry rfl fun _ h => h

theorem Later.trans {u v w : World} (h : c.Later u v) (h' : c.Later v w) : c.Later u w where
  held o t ht := h'.held o t (h.held o t ht)
  kept name hn := h'.kept name (h.kept name hn)
  named hoff text entry he hn := h'.named hoff text entry he (h.named hoff text entry he hn)
  settled name hg hn := h'.settled name hg (h.settled name hg hn)

theorem Steady.caching_of_get? {w : World} (h : c.Steady w) {name : String} {entry : CacheEntry}
    (hc : w.cache.get? name = some entry) : c.engine.config.caching = true := by
  by_contra hn
  rw [Cache.get?_of_disabled _ _ (by rw [h.enabled]; simpa using hn)] at hc
  cases hc

theorem Steady.caching_of_defaultLayout? {w : World} (h : c.Steady w) {t : Compiled}
    (hc : w.cache.defaultLayout? = some t) : c.engine.config.caching = true := by
  rw [Cache.defaultLayout?, h.enabled] at hc
  split at hc
  · assumption
  · cases hc

theorem Records.mono {r r' : Registry} {name : String} {choice : LayoutChoice} {entry : CacheEntry}
    (h : c.Records r name choice entry)
    (hh : ∀ o t, c.engine.Held c.files r o t → c.engine.Held c.files r' o t) :
    c.Records r' name choice entry := by
  refine ⟨h.found, hh _ _ h.view, ?_⟩
  have hl := h.layout
  cases choice with
  | byDefault => exact hl
  | identity => exact hl.imp fun t ht => ⟨ht.1, hh _ _ ht.2⟩
  | named name => exact hl.imp fun t ht => ⟨ht.1, hh _ _ ht.2⟩

/-! ## Changes of the registry -/

theorem named_ne_keyFor {text : String} {entry : String × Template}
    (h : entry ∈ c.engine.partials.named c.files text) (o : Origin) (i : Option Nat) :
    entry.1 ≠ c.engine.keyFor o i := by
  obtain ⟨name, hm, hname, -⟩ := PartialSource.exists_of_mem_named h
  rw [hname]
  exact partialName_ne_keyFor c.valid hm o i

/-- A template compiled from one origin leaves what is held of another, which is the same file if
the keys are equal. -/
theorem held_define_key {r : Registry} {o o' : Origin} {t : Compiled} {i : Option Nat}
    {text : String} {elements : List (Element × Option Position)}
    (h : c.engine.Held c.files r o t) (hi : c.engine.Numbered i)
    (ht : c.engine.textOf c.files o' = .ok text)
    (he : Template.elementsOf text false = .ok elements) :
    c.engine.Held c.files
      (r.define (c.engine.keyFor o' i) (.mk (some (c.engine.keyFor o' i)) elements)) o t := by
  obtain ⟨⟨j, hj, rfl⟩, text', ht', hh, hn⟩ := h
  refine ⟨⟨j, hj, rfl⟩, text', ht', hh.define fun hk => ?_, fun hoff entry hentry => ?_⟩
  · obtain ⟨elements', he', hg⟩ := hh
    have ho := fileOf_of_keyFor c.valid hi hj hk
    simp only [textOf, ho] at ht
    simp only [textOf, ht, Except.ok.injEq] at ht'
    obtain rfl := ht'
    rw [he, Except.ok.injEq] at he'
    rw [hg, hk, he']
  · rw [Registry.define, Table.get?_insert_ne _ _ (named_ne_keyFor hentry o' i).symm]
    exact hn hoff entry hentry

/-- A partial that has the key of no origin leaves what is held. -/
theorem held_define_partial {r : Registry} {o : Origin} {t : Compiled} {name : String}
    {u : Template} (h : c.engine.Held c.files r o t) (hkey : ∀ o i, name ≠ c.engine.keyFor o i)
    (hnamed : c.engine.config.caching = false → ∀ text v,
      (name, v) ∈ c.engine.partials.named c.files text → v = u) :
    c.engine.Held c.files (r.define name u) o t := by
  obtain ⟨⟨j, hj, rfl⟩, text, ht, hh, hn⟩ := h
  refine ⟨⟨j, hj, rfl⟩, text, ht, hh.define fun hk => absurd hk (hkey o j),
    fun hoff entry hentry => ?_⟩
  obtain ⟨n, v⟩ := entry
  rw [Registry.define, Table.get?_insert]
  split
  · rename_i heq
    subst heq
    rw [hnamed hoff text v hentry]
  · exact hn hoff (n, v) hentry

theorem Steady.define {w : World} (h : c.Steady w) {name : String} {t : Template}
    (hheld : c.engine.config.caching = true → ∀ o u, c.engine.Held c.files w.registry o u →
      c.engine.Held c.files (w.define name t).registry o u)
    (hpart : c.governed name → (c.engine.scanned c.base c.files).get? name = some t ∨
      (name, t) ∈ c.engine.partials.scan c.files)
    (hscan : w.scanned = true → c.governed name →
      (c.engine.scanned c.base c.files).get? name = some t) : c.Steady (w.define name t) where
  files := h.files
  enabled := h.enabled
  like := ⟨h.like.helpers, h.like.strict, h.like.escaping⟩
  paths := h.paths
  entries n entry hn :=
    (h.entries n entry hn).imp fun _ hc => ⟨hc.1, hc.2.mono (hheld (h.caching_of_get? hn))⟩
  cached := h.cached
  default u hu := hheld (h.caching_of_defaultLayout? hu) _ _ (h.default u hu)
  partials n hg := by
    show (w.registry.templates.insert name t).get? n = _ ∨
      ∃ u, _ ∧ (w.registry.templates.insert name t).get? n = _
    rw [Table.get?_insert]
    split
    · rename_i heq
      subst heq
      rcases hpart hg with hs | hs
      · rw [← hs]
        rcases Table.get?_union_cases c.base.templates (c.engine.partials.scan c.files) name with
          ⟨-, hb⟩ | hb
        · exact .inl hb
        · exact .inr hb
      · exact .inr ⟨t, hs, rfl⟩
    · exact h.partials n hg
  scanned hw n hg := by
    show (w.registry.templates.insert name t).get? n = _
    rw [Table.get?_insert]
    split
    · rename_i heq
      subst heq
      exact (hscan hw hg).symm
    · exact h.scanned hw n hg

theorem Later.define {w : World} {name : String} {t : Template}
    (hheld : ∀ o u, c.engine.Held c.files w.registry o u →
      c.engine.Held c.files (w.define name t).registry o u)
    (hnamed : c.engine.config.caching = false → ∀ text v,
      (name, v) ∈ c.engine.partials.named c.files text → v = t)
    (hscan : c.governed name → (c.engine.scanned c.base c.files).get? name = some t) :
    c.Later w (w.define name t) where
  held := hheld
  kept _ hn := hn
  named hoff text entry hentry hn := by
    obtain ⟨n, v⟩ := entry
    show (w.registry.templates.insert name t).get? n = _
    rw [Table.get?_insert]
    split
    · rename_i heq
      subst heq
      rw [hnamed hoff text v hentry]
    · exact hn
  settled n hg hn := by
    show (w.registry.templates.insert name t).get? n = _
    rw [Table.get?_insert]
    split
    · rename_i heq
      subst heq
      exact (hscan hg).symm
    · exact hn

/-- Compiling an origin keeps the stores steady. -/
theorem Steady.compile {w : World} (h : c.Steady w) {o : Origin} {i : Option Nat} {text : String}
    (hi : c.engine.Numbered i) (ht : c.engine.textOf c.files o = .ok text) :
    c.Steady (w.perform (.compile (c.engine.keyFor o i) text)).2 ∧
      c.Later w (w.perform (.compile (c.engine.keyFor o i) text)).2 := by
  rw [perform_compile]
  split
  · rename_i elements he
    have hheld := fun o' u (hu : c.engine.Held c.files w.registry o' u) =>
      held_define_key hu hi ht he
    have hng : ¬ c.governed (c.engine.keyFor o i) := fun hg =>
      c.plain _ hg (c.engine.keyLike_keyFor o i)
    exact ⟨h.define (fun _ => hheld) (fun hg => absurd hg hng) (fun _ hg => absurd hg hng),
      .define hheld (fun _ _ _ hv => absurd rfl (named_ne_keyFor hv o i)) fun hg => absurd hg hng⟩
  · exact ⟨h, .refl w⟩

/-- A registry holds what has just been compiled. -/
theorem held_compile {w : World} {o : Origin} {i : Option Nat} {text : String} {t : Compiled}
    (hi : c.engine.Numbered i) (ht : c.engine.textOf c.files o = .ok text)
    (hc : compiled (c.engine.keyFor o i) text = .ok t)
    (hn : c.engine.config.caching = false → ∀ entry ∈ c.engine.partials.named c.files text,
      w.registry.templates.get? entry.1 = some entry.2) :
    c.engine.Held c.files (w.perform (.compile (c.engine.keyFor o i) text)).2.registry o t := by
  rw [perform_compile]
  unfold compiled at hc
  split at hc
  · rename_i elements he
    cases hc
    refine ⟨⟨i, hi, rfl⟩, text, ht, ⟨elements, he, Table.get?_insert_self ..⟩, ?_⟩
    intro hoff entry hentry
    show (w.registry.templates.insert _ _).get? _ = _
    rw [Table.get?_insert_ne _ _ (named_ne_keyFor hentry o i).symm]
    exact hn hoff entry hentry
  · cases hc

/-! ## Programs -/

namespace Safe

variable {α β : Type} {w : World}

theorem bind {p : Program α} {f : α → Program β} {Q' : α → World → Prop} {Q : β → World → Prop}
    (hw : c.Steady w) (hp : c.Safe p Q' w)
    (hf : ∀ a v, Q' a v → c.Steady v → c.Later w v → c.Safe (f a) Q v) : c.Safe (p.bind f) Q w := by
  refine Program.Meets.bind ((hp.extend Later.refl (fun _ _ _ => Later.trans) hw).mono ?_)
  rintro a v ⟨hq, hv, hl⟩
  exact hf a v hq hv hl

theorem attempt {x : Attempt α} {f : α → Attempt β} {Q' : Except ViewError α → World → Prop}
    {Q : Except ViewError β → World → Prop} (hw : c.Steady w) (hx : c.Safe x Q' w)
    (hok : ∀ a v, Q' (.ok a) v → c.Steady v → c.Later w v → c.Safe (f a) Q v)
    (herr : ∀ err v, Q' (.error err) v → Q (.error err) v) :
    c.Safe (Program.bind x (Attempt.after f)) Q w := by
  refine bind hw hx fun r v hq hv hl => ?_
  cases r with
  | ok a => exact hok a v hq hv hl
  | error err => exact herr err v hq

/-- What is safe among others is safe among fewer. -/
theorem meets {R G : World → World → Prop} {p : Program α} {Q : α → World → Prop}
    (hR : ∀ u v, R u v → c.Later u v) (hG : ∀ u v, c.Later u v → G u v) (hw : c.Steady w)
    (hp : c.Safe p Q w) :
    p.Meets c.Steady R G (fun a v => Q a v ∧ c.Steady v ∧ c.Later w v) w :=
  (hp.extend Later.refl (fun _ _ _ => Later.trans) hw).weaken hR hG

end Safe

end Setting

end Views
