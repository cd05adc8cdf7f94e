import Views.Proofs.Engine.Outcome
import Views.Proofs.Evaluation.Render

/-!
# Renders that are confined

The outcome of a render depends on few of the registered templates if its texts say so: if all
partial tags in the view, in the layout and in the partials that these include have fixed names,
then only what stands under these names counts (`confined_of_includes`).
-/

set_option autoImplicit false

namespace Views

open Evaluation

/-! ## Executions on two registries -/

/-- What executing a template is as an evaluation. -/
theorem ran_eq {r : Registry} {key : String} {t : Template} (h : r.templates.get? key = some t)
    (locals : Fields) (scope : Scope) : r.ran ⟨key, key⟩ locals scope =
      match renderNested ⟨r, .object locals⟩ maxNesting t (State.start scope (.object locals)) with
      | (.ok _, s) => .ok (s.out, s.scope)
      | (.error err, _) => .error (.execute key err.message) := by
  simp only [Registry.ran, Registry.execute, Registry.render, h]
  cases renderNested ⟨r, .object locals⟩ maxNesting t (State.start scope (.object locals)) with
  | mk x s => cases x <;> rfl

/-- Two registries that agree on some names, under which stand templates that include no others. -/
structure Registry.Agree (names : String → Prop) (r r' : Registry) : Prop where
  like : r.Like r'
  same : ∀ name, names name → name ≠ bodyName → r.templates.get? name = r'.templates.get? name
  within : ∀ name t, names name → name ≠ bodyName → r.templates.get? name = some t → t.Within names

/-- A text whose partial tags have some names. -/
def Includes (names : String → Prop) (text : String) : Prop :=
  ∀ elements, Template.elementsOf text false = .ok elements →
    PartialName.Within names (Template.inclusionsOf elements)

/-- The names in the partial tags of a text are read off its elements. -/
theorem includes_of_tags {names : String → Prop} {text : String} {tags : List PartialName}
    (h : (Template.elementsOf text false).map Template.inclusionsOf = .ok tags)
    (ht : PartialName.Within names tags) : Includes names text := by
  intro elements he
  rw [he] at h
  cases h
  exact ht

/-- **Registries that agree on what a text includes render it alike**, and to the same if it stands
under one key. -/
theorem ran_alike {names : String → Prop} {r r' : Registry} {key key' text : String}
    (h : r.Agree names r') (hkeys : key = key' ∨ ¬ names key ∧ ¬ names key')
    (hr : r.Holds key text) (hr' : r'.Holds key' text) (ht : Includes names text) (locals : Fields)
    (scope : Scope) : Alike (r.ran ⟨key, key⟩ locals scope) (r'.ran ⟨key', key'⟩ locals scope) ∧
      (key = key' → r.ran ⟨key, key⟩ locals scope = r'.ran ⟨key', key'⟩ locals scope) := by
  let F : Frame :=
    { names, key, key'
      env := ⟨r, .object locals⟩
      env' := ⟨r', .object locals⟩
      like := h.like
      root := rfl
      same := h.same
      within := h.within
      keys := hkeys }
  obtain ⟨elements, he, hg⟩ := hr
  obtain ⟨elements', he', hg'⟩ := hr'
  obtain rfl := Except.ok.inj (he.symm.trans he')
  have hends := Frame.Twin.renderKeyed (F := F) maxNesting elements (ht elements he)
    (State.start scope (.object locals)) (State.start scope (.object locals))
    (Frame.Similar.start scope _)
  rw [ran_eq hg, ran_eq hg']
  rcases hends.cases with ⟨_, _, s, s', hs, hs', -, hsim⟩ | ⟨err, err', s, s', hs, hs', herr⟩
  · rw [hs, hs', hsim.rest]
    exact ⟨rfl, fun _ => rfl⟩
  · rw [hs, hs']
    refine ⟨rfl, fun hk => ?_⟩
    rw [herr.eq hk, hk]

namespace Engine

variable {e : Engine} {base : Registry} {files : Files.FileTree} {q : Query}
  {names : String → Prop} {fits : Registry → Prop} {numbers : Option Nat → Prop}

/-- The view of a render and the layout that it chooses include partials of some names only. -/
def Includes (e : Engine) (files : Files.FileTree) (names : String → Prop) (q : Query) : Prop :=
  ∀ o, o = .view q.logical ∨ o = e.originOf (e.ownChoice files q) →
    ∀ text, e.textOf files o = .ok text → Views.Includes names text

theorem ran_hosts {o : Origin} {r r' : Registry} {key key' : String}
    (hfits : ∀ r r', fits r → fits r' → r.Agree names r')
    (hnames : ∀ i j, numbers i → numbers j →
      i = j ∨ ¬ names (e.keyFor o i) ∧ ¬ names (e.keyFor o j))
    (ht : ∀ text, e.textOf files o = .ok text → Views.Includes names text)
    (h : e.Hosts files fits numbers o r key) (h' : e.Hosts files fits numbers o r' key')
    (locals : Fields) (scope : Scope) :
    Alike (r.ran ⟨key, key⟩ locals scope) (r'.ran ⟨key', key'⟩ locals scope) ∧
      (key = key' → r.ran ⟨key, key⟩ locals scope = r'.ran ⟨key', key'⟩ locals scope) := by
  obtain ⟨hr, text, i, htext, hi, rfl, hh⟩ := h
  obtain ⟨hr', text', j, htext', hj, rfl, hh'⟩ := h'
  obtain rfl := Except.ok.inj (htext.symm.trans htext')
  exact ran_alike (hfits r r' hr hr') ((hnames i j hi hj).imp_left fun h => h ▸ rfl) hh hh'
    (ht text htext) locals scope

/-- Fixed names in its texts determine the outcome of a render up to the texts of errors. -/
theorem determined_alike (hfits : ∀ r r', fits r → fits r' → r.Agree names r')
    (hnames : ∀ name, names name → ¬ KeyLike name) (ht : e.Includes files names q) :
    e.Determined files fits numbers Alike q := by
  have hkeys (o : Origin) (i j : Option Nat) (_ : numbers i) (_ : numbers j) :
      i = j ∨ ¬ names (e.keyFor o i) ∧ ¬ names (e.keyFor o j) :=
    .inr ⟨fun h => hnames _ h (e.keyLike_keyFor o i), fun h => hnames _ h (e.keyLike_keyFor o j)⟩
  exact
    { view := fun _ _ _ _ h h' => (ran_hosts hfits (hkeys _) (ht _ (.inl rfl)) h h' _ _).1
      layout := fun _ _ _ _ _ _ _ _ _ _ h h' =>
        (ran_hosts hfits (hkeys _) (ht _ (.inr rfl)) h h' _ _).1 }

/-- Without numbers in the keys they determine all of it. -/
theorem determined_eq (hfits : ∀ r r', fits r → fits r' → r.Agree names r')
    (ht : e.Includes files names q) : e.Determined files fits (· = none) Eq q := by
  have hkeys (o : Origin) (i j : Option Nat) (hi : i = none) (hj : j = none) :
      i = j ∨ ¬ names (e.keyFor o i) ∧ ¬ names (e.keyFor o j) := .inl (hi.trans hj.symm)
  have hkey {o : Origin} {r r' : Registry} {key key' : String}
      (h : e.Hosts files fits (· = none) o r key) (h' : e.Hosts files fits (· = none) o r' key') :
      key = key' := by
    obtain ⟨-, -, i, -, rfl, rfl, -⟩ := h
    obtain ⟨-, -, j, -, rfl, rfl, -⟩ := h'
    rfl
  exact
    { view := fun _ _ _ _ h h' =>
        (ran_hosts hfits (hkeys _) (ht _ (.inl rfl)) h h' _ _).2 (hkey h h')
      layout := fun _ _ _ _ _ _ _ _ _ _ h h' =>
        (ran_hosts hfits (hkeys _) (ht _ (.inr rfl)) h h' _ _).2 (hkey h h') }

/-- **A render is confined to the names in the partial tags of its texts**, if these are fixed, and
to those in the partials of these names, and so on. -/
theorem confined_of_includes (hnames : ∀ name, names name → ¬ KeyLike name)
    (ht : e.Includes files names q)
    (hclosed : ∀ name t, names name → name ≠ bodyName →
      (e.scanned base files).get? name = some t → t.Within names) :
    e.Confined base files names q := by
  refine determined_alike (fun r r' hr hr' => ⟨?_, fun name hn _ => ?_, fun name t hn hb hg => ?_⟩)
    hnames ht
  · exact ⟨hr.1.helpers.symm.trans hr'.1.helpers, hr.1.strict.symm.trans hr'.1.strict,
      hr.1.escaping.symm.trans hr'.1.escaping⟩
  · rw [hr.2 name hn, hr'.2 name hn]
  · exact hclosed name t hn hb (hr.2 name hn ▸ hg)

/-- Names under which only partials of the directory stand. -/
theorem within_scanned (hb : base.templates = [])
    (h : ∀ entry ∈ e.partials.scan files, entry.2.Within names) (name : String) (t : Template)
    (ht : (e.scanned base files).get? name = some t) : t.Within names := by
  rw [scanned, hb] at ht
  rcases Table.get?_union_cases [] (e.partials.scan files) name with ⟨-, hu⟩ | ⟨u, hm, hu⟩
  · rw [hu] at ht
    cases ht
  · rw [hu] at ht
    cases ht
    exact h _ hm

/-! ## A view with a partial -/

/-- A view that includes a partial, which has some text. -/
def includingFiles (text : String) : Files.FileTree :=
  ⟨.directory [("partials", .directory [("nav.hbs", .file text)]),
    ("views", .directory [("a.hbs", .file "{{> nav}}A")])], []⟩

/-- An engine for it, with caching or without. -/
def includingEngine (disableCache : Bool) : Engine :=
  ⟨{ viewPath := "views", partialsPath := "partials", disableCache }⟩

theorem names_including (text : String) (b : Bool) :
    ((includingEngine b).partials.listed (includingFiles text)).map
      (includingEngine b).partials.partialName = ["nav"] := by
  cbv

theorem not_keyLike_including (text : String) (b : Bool) :
    ∀ path ∈ (includingEngine b).partials.listed (includingFiles text),
      ¬ KeyLike ((includingEngine b).partials.partialName path) := by
  intro path hp
  have hname := List.mem_map_of_mem (f := (includingEngine b).partials.partialName) hp
  rw [names_including, List.mem_singleton] at hname
  rw [hname]
  decide

theorem textOf_including (text : String) (b : Bool) : (includingEngine b).textOf
    (includingFiles text) (.view (Query.logical { name := "a" })) = .ok "{{> nav}}A" := by
  cbv

theorem originOf_including (text : String) (b : Bool) : (includingEngine b).originOf
    ((includingEngine b).ownChoice (includingFiles text) { name := "a" }) = .identity := by
  cbv

/-- The texts of the render and their partial tags. -/
theorem includes_including (h : names "nav") (text : String) (b : Bool) :
    (includingEngine b).Includes (includingFiles text) names { name := "a" } := by
  have htags : (Template.elementsOf "{{> nav}}A" false).map Template.inclusionsOf =
      .ok [.fixed "nav"] := by
    cbv
  have hnone : (Template.elementsOf identitySource false).map Template.inclusionsOf = .ok [] := by
    cbv
  rintro o (rfl | rfl) text' ht
  · obtain rfl := Except.ok.inj ((textOf_including text b).symm.trans ht)
    exact includes_of_tags htags (by simpa using h)
  · rw [originOf_including] at ht
    obtain rfl := Except.ok.inj ht
    exact includes_of_tags hnone PartialName.within_nil

/-- The render of the view is confined to the name of the partial. -/
theorem confined_including (hnames : ∀ name, names name → ¬ KeyLike name) (h : names "nav")
    (hb : base.templates = []) (b : Bool) :
    (includingEngine b).Confined base (includingFiles "N") names { name := "a" } := by
  refine confined_of_includes hnames (includes_including h "N" b) fun name t _ _ ht =>
    within_scanned hb (fun entry he => ?_) name t ht
  have htags : ((includingEngine b).partials.scan (includingFiles "N")).map
      (fun entry => entry.2.inclusions) = [[]] := by
    cbv
  have hmem := List.mem_map_of_mem (f := fun entry => entry.2.inclusions) he
  rw [htags, List.mem_singleton] at hmem
  rw [Template.Within, hmem]
  exact PartialName.within_nil

end Engine

end Views
