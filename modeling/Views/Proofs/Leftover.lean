import Mathlib.Algebra.Order.BigOperators.Group.Finset
import Views.Proofs.Failure

/-!
# What renders leave in the registry

Nothing is ever taken out of the registry, so with caching each compilation adds a template for
good. After renders one after the other, the cache refers to all templates that the engine has
compiled, but for those of views whose layout could not be loaded (`compiled_referred_or_left`):
such a view is compiled before its layout is looked at, and no entry is made for it.
-/

set_option autoImplicit false

namespace Views

/-! ## Definitions -/

/-- The names with an entry. -/
def Cache.names (c : Cache) : Finset String := c.entries.keys.toFinset

/-- A template is in one of the slots of the cache. -/
def Cache.Refers (c : Cache) (t : Compiled) : Prop :=
  ∃ (slot : Slot) (x : slot.Content), slot.get? c = some x ∧ t ∈ slot.templates x

instance (err : ViewError) : Decidable err.Early := inferInstanceAs (Decidable (_ ∨ _ ∨ _))

/-- What a render has compiled, if it fails before it executes anything. -/
def Run.leftovers (run : Run (Except ViewError String)) : List Compiled :=
  match run.result with
  | .ok _ => []
  | .error err => if err.Early then compilations run.steps else []

theorem Run.leftovers_of_early {run : Run (Except ViewError String)} {err : ViewError}
    (h : run.result = .error err) (hearly : err.Early) :
    run.leftovers = compilations run.steps := by
  rw [leftovers, h]
  exact if_pos hearly

/-- A render of a history, and the world that it starts from. -/
structure Visit where
  query : Query
  world : World

namespace Engine

variable (e : Engine)

/-- The run of a render of a history. -/
def runOf (x : Visit) : Run (Except ViewError String) := (e.answer x.query).run x.world

/-- The renders of a history. -/
def visits (history : List Event) (w : World) : List Visit :=
  match history with
  | [] => []
  | .render q :: rest => ⟨q, w⟩ :: visits rest ((e.answer q).run w).world
  | .change files :: rest => visits rest { w with files }

/-- A view was compiled, but the layout that it needs cannot be loaded. -/
structure Stranded (files : Files.FileTree) (r : Registry) (name : String) (locals : Fields)
    (t : Compiled) : Prop where
  held : e.Held files r (.view name) t
  layout : ∃ text layout, e.textOf files (.view name) = .ok text ∧
    chooseLayout locals text = .named layout ∧ ∀ text', ¬ e.Usable files (.layout layout) text'

variable {e} {w v u : World} {name : String} {locals : Fields} {made : List Compiled}

/-! ## One render -/

theorem Prepares.made_of_error {err : ViewError}
    (h : e.Prepares name locals w (.error err) v made) :
    made = [] ∨ ∃ t, made = [t] ∧ e.Stranded w.files v.registry name locals t := by
  cases h with
  | missing hf => exact .inl rfl
  | @failed u v err made hu h =>
    rw [← hu.files]
    cases h with
    | unusable => exact .inl rfl
    | stranded hmiss hview ht hchoice h =>
      exact .inr ⟨_, rfl, ht, _, _, hview.read, hchoice, h⟩

theorem Entered.refers (hon : w.cache.enabled = true) {entry : CacheEntry}
    (h : e.Entered name locals w (.ok entry) v made) : ∀ t ∈ made, v.cache.Refers t := by
  cases h with
  | kept h => exact fun t ht => by cases ht
  | @stored text entry v hmiss hview hentry hv =>
    refine fun t ht => ⟨.entry name, entry, ?_, ht⟩
    exact (Cache.get?_insert _ _ _ _ (hv.cache ▸ hon)).trans (if_pos rfl)

theorem Defaulted.refers (hon : w.cache.enabled = true) {layout : Option Compiled}
    (h : e.Defaulted w layout v made) : ∀ t, w.cache.Refers t ∨ t ∈ made → v.cache.Refers t := by
  rintro t (⟨slot, x, hx, ht⟩ | ht)
  · rcases h.slot_eq slot with hs | ⟨rfl, hmiss⟩
    · exact ⟨slot, x, hs.trans hx, ht⟩
    -- The slot that is filled was empty before.
    · cases hmiss.symm.trans hx
  · cases h with
    | kept h => cases ht
    | failed hmiss h hv => cases ht
    | @stored t' v hmiss h ht' hv =>
      refine ⟨.byDefault, t', ?_, ht⟩
      exact (Cache.defaultLayout?_setDefaultLayout ..).trans (if_pos (hv.cache ▸ hon))

/-- What a render that is prepared has compiled is in the cache. -/
theorem Prepares.refers (hon : w.cache.enabled = true) {p : Prepared}
    (h : e.Prepares name locals w (.ok p) v made) : ∀ t ∈ made, v.cache.Refers t := by
  cases h with
  | entered hu h hlayout => exact h.refers (hu.cache ▸ hon)
  | defaulted hu h hnone hlayout =>
    rw [← hu.cache] at hon
    intro t ht
    refine hlayout.refers (h.enabled.trans hon) t ?_
    exact (List.mem_append.1 ht).imp_left (h.refers hon t)

section

variable (hv : e.config.viewPath ≠ "") (hon : e.config.caching = true)
include hv hon

/-- **What a render compiles** is in the cache, or it is the view of a render that fails for want of
its layout. -/
theorem compilations_answer {x : Visit} (hx : e.Sane x.world) :
    (e.runOf x).leftovers = [] ∧
        (∀ t ∈ compilations (e.runOf x).steps, (e.runOf x).world.cache.Refers t) ∨
      (e.runOf x).leftovers = compilations (e.runOf x).steps ∧
        ((e.runOf x).leftovers = [] ∨ ∃ t, (e.runOf x).leftovers = [t] ∧ e.Stranded x.world.files
          (e.runOf x).world.registry x.query.logical (e.merged x.query) t) := by
  obtain ⟨p, hp, hresult⟩ := answer_alone hv hon hx.paths x.query
  change (e.runOf x).result = _ at hresult
  cases p with
  | error err =>
    have hleft := Run.leftovers_of_early hresult hp.unmarked.2
    exact .inr ⟨hleft, hleft ▸ hp.made_of_error⟩
  | ok p =>
    refine .inl ⟨?_, hp.refers (hx.enabled.trans hon)⟩
    rw [Run.leftovers]
    cases hr : (e.runOf x).result with
    | ok out => rfl
    | error err =>
      have hlate := finished_error (hresult.symm.trans hr)
      exact if_neg fun hearly => hearly.ne (hlate.imp_left And.left)

/-! ## Histories -/

theorem compilations_live (hw : e.Sane w) {history : List Event} {x : Visit}
    (hx : x ∈ e.visits history w) {t : Compiled} (ht : t ∈ compilations (e.runOf x).steps) :
    (e.live history w).cache.Refers t ∨ t ∈ (e.runOf x).leftovers := by
  induction history generalizing w with
  | nil => cases hx
  | cons event rest ih =>
    cases event with
    | change files => exact ih ⟨hw.enabled, hw.paths⟩ hx
    | render q =>
      rcases List.mem_cons.1 hx with rfl | hx
      · rcases compilations_answer hv hon (x := ⟨q, w⟩) hw with ⟨-, hrefers⟩ | ⟨hleft, -⟩
        · obtain ⟨slot, y, hy, hmem⟩ := hrefers t ht
          exact .inl ⟨slot, y, slots_live hv hon (hw.answer q) rest hy, hmem⟩
        · exact .inr (hleft ▸ ht)
      · exact ih (hw.answer q) hx

end

theorem sane_of_mem_visits (hw : e.Sane w) {history : List Event} {x : Visit}
    (hx : x ∈ e.visits history w) : e.Sane x.world := by
  induction history generalizing w with
  | nil => cases hx
  | cons event rest ih =>
    cases event with
    | change files => exact ih (w := { w with files }) ⟨hw.enabled, hw.paths⟩ hx
    | render q =>
      rcases List.mem_cons.1 hx with rfl | hx
      · exact hw
      · exact ih (hw.answer q) hx

/-- What is registered after a history was there before, or was registered as a partial or compiled
by one of its renders. -/
theorem names_live (history : List Event) {other : String}
    (h : other ∈ (e.live history w).registry.names) :
    other ∈ w.registry.names ∨ ∃ x ∈ e.visits history w,
      other ∈ registrations (e.runOf x).steps ∨
        ∃ t ∈ compilations (e.runOf x).steps, t.key = other := by
  induction history generalizing w with
  | nil => exact .inl h
  | cons event rest ih =>
    cases event with
    | change files => exact ih h
    | render q =>
      rcases ih h with hmid | ⟨x, hx, hnew⟩
      · exact (Program.names_run _ _ hmid).imp_right fun hnew => ⟨⟨q, w⟩, List.mem_cons_self, hnew⟩
      · exact .inr ⟨x, List.mem_cons_of_mem _ hx, hnew⟩

end Engine

/-! ## Counting -/

/-- The keys of the templates in a slot. -/
def Slot.keys (slot : Slot) (c : Cache) : Finset String :=
  match slot.get? c with
  | some x => ((slot.templates x).map Compiled.key).toFinset
  | none => ∅

/-- The keys of the templates in the cache. -/
def Cache.keys (c : Cache) : Finset String :=
  (c.names.biUnion fun name => (Slot.entry name).keys c) ∪ Slot.byDefault.keys c

theorem Cache.Refers.key_mem {c : Cache} {t : Compiled} (h : c.Refers t) : t.key ∈ c.keys := by
  obtain ⟨slot, x, hx, ht⟩ := h
  have hkey : t.key ∈ slot.keys c := by
    rw [Slot.keys, hx]
    exact List.mem_toFinset.2 (List.mem_map_of_mem ht)
  cases slot with
  | byDefault => exact Finset.mem_union_right _ hkey
  | entry name =>
    refine Finset.mem_union_left _ (Finset.mem_biUnion.2 ⟨name, List.mem_toFinset.2 ?_, hkey⟩)
    rw [Slot.get?, Cache.get?] at hx
    split at hx
    · exact Table.mem_keys_of_get? hx
    · cases hx

theorem Slot.card_keys_entry (name : String) (c : Cache) : ((entry name).keys c).card ≤ 2 := by
  unfold keys
  cases (entry name).get? c with
  | none => exact Nat.zero_le 2
  | some x =>
    obtain ⟨template, layout⟩ := x
    refine (List.toFinset_card_le _).trans ?_
    rw [List.length_map]
    cases layout <;> simp [templates]

theorem Slot.card_keys_byDefault (c : Cache) : (byDefault.keys c).card ≤ 1 := by
  unfold keys
  cases byDefault.get? c with
  | none => exact Nat.zero_le 1
  | some t => exact List.toFinset_card_le _

theorem Cache.card_keys (c : Cache) : c.keys.card ≤ 2 * c.names.card + 1 := by
  have hentries : (c.names.biUnion fun name => (Slot.entry name).keys c).card ≤
      c.names.card * 2 :=
    Finset.card_biUnion_le_card_mul _ _ _ fun name _ => Slot.card_keys_entry name c
  have hdefault := Slot.card_keys_byDefault c
  calc c.keys.card ≤ _ + _ := Finset.card_union_le _ _
    _ ≤ 2 * c.names.card + 1 := by omega

/-! ## The registry after a history -/

open Engine

/-- **What the engine has compiled** in a history of renders and changes of the files is in the
cache, or it was compiled by a render that failed before it executed anything: the one view of a
render whose layout could not be loaded. Apart from that such a render adds nothing to the registry
but partials. So the number of names in the registry is bounded by the names in the cache, the
partials, and the views that were left over. -/
theorem compiled_referred_or_left {config : Config} {r base : Registry} {e : Engine}
    (hb : build config r = .ok (e, base)) (hon : e.config.caching = true) (files : Files.FileTree)
    (history : List Event) :
    let visits := e.visits history (e.world base files)
    let w := e.live history (e.world base files)
    let left := visits.flatMap fun x => (e.runOf x).leftovers
    let partials := visits.flatMap fun x => registrations (e.runOf x).steps
    (∀ x ∈ visits, ∀ t ∈ compilations (e.runOf x).steps,
        w.cache.Refers t ∨ t ∈ (e.runOf x).leftovers) ∧
      (∀ x ∈ visits, (e.runOf x).leftovers = [] ∨ ∃ t, (e.runOf x).leftovers = [t] ∧
        e.Stranded x.world.files (e.runOf x).world.registry x.query.logical (e.merged x.query) t) ∧
      (∀ x ∈ visits, ∀ err, (e.runOf x).result = .error err → err.Early →
        ∀ name ∈ (e.runOf x).world.registry.names, name ∈ x.world.registry.names ∨
          name ∈ registrations (e.runOf x).steps ∨ ∃ t ∈ (e.runOf x).leftovers, t.key = name) ∧
      w.registry.names.toFinset.card ≤
        2 * w.cache.names.card + 2 + (base.names ++ partials).toFinset.card + left.length := by
  intro visits w left partials
  obtain ⟨rfl, hv, -⟩ := of_build hb
  have hstart : e.Sane (e.world base files) := sane_world base files
  have hreferred (x : Visit) (hx : x ∈ visits) (t : Compiled)
      (ht : t ∈ compilations (e.runOf x).steps) :
      w.cache.Refers t ∨ t ∈ (e.runOf x).leftovers := compilations_live hv hon hstart hx ht
  refine ⟨hreferred, fun x hx => ?_, fun x hx err herr hearly name hname => ?_, ?_⟩
  · rcases compilations_answer hv hon (sane_of_mem_visits hstart hx) with ⟨hnone, -⟩ | ⟨-, hleft⟩
    · exact .inl hnone
    · exact hleft
  · rw [Run.leftovers_of_early herr hearly]
    exact Program.names_run _ _ hname
  · have hnames : w.registry.names.toFinset ⊆
        (w.cache.keys ∪ (base.names ++ partials).toFinset) ∪ (left.map Compiled.key).toFinset := by
      intro name hname
      simp only [Finset.mem_union, List.mem_toFinset, List.mem_append]
      rcases names_live history (List.mem_toFinset.1 hname) with
        hbase | ⟨x, hx, hpart | ⟨t, ht, rfl⟩⟩
      · exact .inl (.inr (.inl hbase))
      · exact .inl (.inr (.inr (List.mem_flatMap.2 ⟨x, hx, hpart⟩)))
      · rcases hreferred x hx t ht with href | hleft
        · exact .inl (.inl href.key_mem)
        · exact .inr (List.mem_map_of_mem (List.mem_flatMap.2 ⟨x, hx, hleft⟩))
    have hcache := w.cache.card_keys
    have hleft : (left.map Compiled.key).toFinset.card ≤ left.length :=
      (List.toFinset_card_le _).trans (List.length_map _).le
    calc w.registry.names.toFinset.card
        ≤ _ := Finset.card_le_card hnames
      _ ≤ (w.cache.keys.card + (base.names ++ partials).toFinset.card) +
          (left.map Compiled.key).toFinset.card :=
        (Finset.card_union_le _ _).trans (Nat.add_le_add_right (Finset.card_union_le _ _) _)
      _ ≤ _ := by omega

/-- A view whose layout is missing at first is left over once. -/
theorem compiled_referred_or_left_once :
    let e : Engine := ⟨{ viewPath := "views" }⟩
    let base := (freshRegistry {}).withBlockHelpers "block" "contentFor"
    let q : Query := { name := "a" }
    let history := [.render q, .change (layoutFiles (some "[{{{body}}}]")), .render q]
    let visits := e.visits history (e.world base (layoutFiles none))
    let w := e.live history (e.world base (layoutFiles none))
    w.registry.names =
        ["layout::views/l.hbs#2", "view::views/a.hbs#0", "view::views/a.hbs#1"] ∧
      (visits.map fun x => (e.runOf x).leftovers.map Compiled.key) =
        [["view::views/a.hbs#0"], []] ∧
      ∀ x ∈ visits, ∀ t ∈ compilations (e.runOf x).steps,
        w.cache.Refers t ∨ t ∈ (e.runOf x).leftovers := by
  intro e base q history visits w
  have hb : build e.config (freshRegistry {}) = .ok (e, base) := rfl
  have hnames : (e.live history (e.world base (layoutFiles none))).registry.names =
      ["layout::views/l.hbs#2", "view::views/a.hbs#0", "view::views/a.hbs#1"] := by
    cbv
  have hleft : ((e.visits history (e.world base (layoutFiles none))).map
      fun x => (e.runOf x).leftovers.map Compiled.key) = [["view::views/a.hbs#0"], []] := by
    cbv
  obtain ⟨hreferred, -⟩ := compiled_referred_or_left hb rfl (layoutFiles none) history
  exact ⟨hnames, hleft, hreferred⟩

/-- Each render that fails for want of its layout leaves another view in the registry, which the
cache does not refer to. -/
theorem stranded_not_referred :
    let e : Engine := ⟨{ viewPath := "views" }⟩
    let base := (freshRegistry {}).withBlockHelpers "block" "contentFor"
    let q : Query := { name := "a" }
    let run := (e.answer q).run (e.world base (layoutFiles none))
    let w := e.live [.render q, .render q, .render q] (e.world base (layoutFiles none))
    run.result = .error (.io "views/l.hbs" (.system .notFound)) ∧
      compilations run.steps = [⟨"view::views/a.hbs#0", "view::views/a.hbs#0"⟩] ∧
      base.names = [] ∧ run.world.registry.names = ["view::views/a.hbs#0"] ∧
      (∀ t, ¬ run.world.cache.Refers t) ∧ w.cache.names = ∅ ∧
      w.registry.names = ["view::views/a.hbs#0", "view::views/a.hbs#1", "view::views/a.hbs#2"] := by
  intro e base q run w
  have hresult : ((e.answer q).run (e.world base (layoutFiles none))).result =
      .error (.io "views/l.hbs" (.system .notFound)) := by
    cbv
  have hmade : compilations ((e.answer q).run (e.world base (layoutFiles none))).steps =
      [⟨"view::views/a.hbs#0", "view::views/a.hbs#0"⟩] := by
    cbv
  have hname : ((e.answer q).run (e.world base (layoutFiles none))).world.registry.names =
      ["view::views/a.hbs#0"] := by
    cbv
  have hcache : ((e.answer q).run (e.world base (layoutFiles none))).world.cache =
      Cache.empty true := by
    cbv
  have hnames : (e.live [.render q, .render q, .render q]
      (e.world base (layoutFiles none))).registry.names =
        ["view::views/a.hbs#0", "view::views/a.hbs#1", "view::views/a.hbs#2"] := by
    cbv
  have hentries : (e.live [.render q, .render q, .render q]
      (e.world base (layoutFiles none))).cache.entries = [] := by
    cbv
  refine ⟨hresult, hmade, rfl, hname, ?_, ?_, hnames⟩
  · rintro t ⟨slot, x, hx, -⟩
    rw [show run.world.cache = Cache.empty true from hcache, Slot.get?_empty] at hx
    cases hx
  · rw [Cache.names, show w.cache.entries = [] from hentries]
    rfl

end Views
