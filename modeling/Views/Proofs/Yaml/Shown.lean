import Mathlib.Data.List.Forall2
import Mathlib.Data.List.Nodup
import Views.Proofs.Table
import Views.Yaml.Decode

/-!
# Nodes that show values

`Yaml.Shows n node v` says that a node is written for a value: what is quoted is a text, a plain
scalar shows what it reads as, and collections, which are nested at most `n` deep, show their parts
in order, a mapping under different keys. Every way to read a node gives what it shows: as a value
(`valueOf_shown`), as a part of some type (`textOf_shown` and those behind it), as fields
(`fieldsOf_shown`) and as parts by their keys (`partsOf_shown`).
-/

set_option autoImplicit false

namespace Views.Yaml

/-- A scalar shows a value. -/
inductive ScalarShows : Node → Value → Prop
  | null {text : String} (h : text = "" ∨ isNull text = true) :
    ScalarShows (.scalar none text .plain) .null
  | flag {text : String} {b : Bool} (h : flagOf? text = some b) :
    ScalarShows (.scalar none text .plain) (.bool b)
  | number {text : String} {n : Number} (h : plainValue? text = some (.number n)) :
    ScalarShows (.scalar none text .plain) (.number n)
  /-- A plain text that reads as nothing else. -/
  | plain {text : String} (h : plainValue? text = some (.string text)) :
    ScalarShows (.scalar none text .plain) (.string text)
  | quoted {text : String} {style : Style} (h : style ≠ .plain) :
    ScalarShows (.scalar none text style) (.string text)

/-- A node is a scalar with a text, as keys are. -/
def IsKey (node : Node) (text : String) : Prop := ∃ tag style, node = .scalar tag text style

/-- A node shows a value if its parts show those of the value. -/
inductive Shown (inner : Node → Value → Prop) : Node → Value → Prop
  | scalar {node : Node} {v : Value} (h : ScalarShows node v) : Shown inner node v
  | sequence {nodes : List Node} {items : List Value} (h : List.Forall₂ inner nodes items) :
    Shown inner (.sequence none nodes) (.array items)
  | mapping {pairs : List (Node × Node)} {entries : List (String × Value)}
    (h : List.Forall₂ (fun pair entry => IsKey pair.1 entry.1 ∧ inner pair.2 entry.2) pairs entries)
    (hkeys : (entries.map Prod.fst).Nodup) :
    Shown inner (.mapping none pairs) (.object (Table.ofList entries))

/-- A node shows a value, with collections that are nested at most `n` deep. -/
def Shows : Nat → Node → Value → Prop
  | 0 => ScalarShows
  | n + 1 => Shown (Shows n)

/-- A text is a document that shows a value, with collections that are nested at most `n` deep. -/
def Describes (n : Nat) (text : String) (v : Value) : Prop :=
  ∃ d root, Document.read? text = some d ∧ d.root = some root ∧ Shows n root v

theorem ScalarShows.shows {node : Node} {v : Value} (h : ScalarShows node v) :
    ∀ n, Shows n node v
  | 0 => h
  | _ + 1 => .scalar h

/-- A mapping of one key. -/
theorem Shows.mapping {n : Nat} {key : String} {style : Style} {node : Node} {v : Value}
    (h : Shows n node v) :
    Shows (n + 1) (.mapping none [(.scalar none key style, node)]) (.object [(key, v)]) :=
  have hpair : IsKey (.scalar none key style) key ∧ Shows n node v := ⟨⟨_, _, rfl⟩, h⟩
  Shown.mapping (.cons (b := (key, v)) hpair .nil) (List.nodup_singleton _)

/-! ## Scalars -/

theorem mapM_of_forall₂ {m : Type → Type} [Monad m] [LawfulMonad m] {α β : Type} {f : α → m β}
    {xs : List α} {ys : List β} (h : List.Forall₂ (fun x y => f x = pure y) xs ys) :
    xs.mapM f = pure ys := by
  induction h with
  | nil => rw [List.mapM_nil]
  | cons hx _ ih => simp only [List.mapM_cons, hx, ih, pure_bind]

section

variable (d : Document)

theorem follow_scalar (tag : Option String) (text : String) (style : Style) :
    follow d (.scalar tag text style) = pure (.scalar tag text style) := rfl

theorem textOf_key {node : Node} {text : String} (h : IsKey node text) :
    textOf d node = pure text := by
  obtain ⟨tag, style, rfl⟩ := h
  rfl

theorem plainValue?_flag {text : String} {b : Bool} (h : flagOf? text = some b) :
    plainValue? text = some (.bool b) := by
  have hnull : ¬ (text = "" ∨ isNull text = true) := by
    rintro (rfl | hn)
    · simp [flagOf?] at h
    · simp only [isNull, Bool.or_eq_true, beq_iff_eq] at hn
      rcases hn with ((rfl | rfl) | rfl) | rfl <;> simp [flagOf?] at h
  rw [plainValue?, if_neg hnull, h]

theorem scalarValue?_shown {tag : Option String} {text : String} {style : Style} {v : Value}
    (h : ScalarShows (.scalar tag text style) v) : scalarValue? tag text style = some v := by
  cases h with
  | null h => exact if_pos h
  | flag h => exact plainValue?_flag h
  | number h => exact h
  | plain h => exact h
  | quoted h => exact if_neg h

theorem ScalarShows.eq_scalar {node : Node} {v : Value} (h : ScalarShows node v) :
    ∃ tag text style, node = .scalar tag text style := by
  cases h <;> exact ⟨_, _, _, rfl⟩

/-! ## Collections -/

/-- The pairs of a mapping are read as entries, if their values are. -/
theorem entries_shown {n : Nat} {pairs : List (Node × Node)} {entries : List (String × Value)}
    {inner : Node → Value → Prop}
    (h : List.Forall₂ (fun pair entry => IsKey pair.1 entry.1 ∧ inner pair.2 entry.2) pairs entries)
    (hinner : ∀ node v, inner node v → valueOf d n node = pure v) :
    (pairs.mapM fun (key, value) => do
      let key ← textOf d key
      pure (key, ← valueOf d n value)) = pure entries := by
  refine mapM_of_forall₂ (h.imp fun pair entry hp => ?_)
  simp only [textOf_key d hp.1, hinner _ _ hp.2, pure_bind]

/-- **A node is read as the value that it shows.** -/
theorem valueOf_shown {n : Nat} {node : Node} {v : Value} (h : Shows n node v) :
    valueOf d n node = pure v := by
  induction n generalizing node v with
  | zero =>
    obtain ⟨tag, text, style, rfl⟩ := ScalarShows.eq_scalar h
    exact congrArg orFail (scalarValue?_shown h)
  | succ n ih =>
    cases h with
    | scalar h =>
      obtain ⟨tag, text, style, rfl⟩ := h.eq_scalar
      exact congrArg orFail (scalarValue?_shown h)
    | @sequence nodes items h =>
      have hitems : nodes.mapM (valueOf d n) = pure items :=
        mapM_of_forall₂ (h.imp fun _ _ hv => ih hv)
      rw [valueOf]
      exact (congrArg (· >>= fun vs => pure (Value.array vs)) hitems).trans (pure_bind _ _)
    | @mapping pairs entries h _ =>
      have hentries := entries_shown d h fun node v hv => ih hv
      rw [valueOf]
      exact (congrArg (· >>= fun fs => pure (Value.object (Table.ofList fs))) hentries).trans
        (pure_bind _ _)

/-! ## Typed parts -/

variable {d}

/-- What is no collection is shown by a scalar. -/
theorem Shows.scalarShows {n : Nat} {node : Node} {v : Value} (h : Shows n node v)
    (harray : ∀ items, v ≠ .array items) (hobject : ∀ fs, v ≠ .object fs) :
    ScalarShows node v := by
  cases n with
  | zero => exact h
  | succ n =>
    cases h with
    | scalar h => exact h
    | sequence h => exact absurd rfl (harray _)
    | mapping h _ => exact absurd rfl (hobject _)

/-- An object is shown by a mapping. -/
theorem Shows.exists_mapping {n : Nat} {node : Node} {fs : Fields} (h : Shows n node (.object fs)) :
    ∃ (k : Nat) (pairs : List (Node × Node)) (entries : Fields), n = k + 1 ∧
      node = .mapping none pairs ∧ fs = Table.ofList entries ∧ entries.keys.Nodup ∧
      List.Forall₂ (fun pair entry => IsKey pair.1 entry.1 ∧ Shows k pair.2 entry.2) pairs
        entries := by
  cases n with
  | zero => cases h
  | succ n =>
    cases h with
    | scalar h => cases h
    | mapping h hkeys => exact ⟨n, _, _, rfl, rfl, rfl, hkeys, h⟩

variable {p : Part}

theorem textOf_shown {text : String} (h : Shows p.levels p.node (.string text)) :
    textOf d p.node = pure text := by
  generalize p.node = node at h
  replace h := h.scalarShows nofun nofun
  cases h with
  | plain _ => rfl
  | quoted _ => rfl

theorem optionalTextOf_shown {text : String} (h : Shows p.levels p.node (.string text)) :
    optionalTextOf d p.node = pure (some text) := by
  generalize p.node = node at h
  replace h := h.scalarShows nofun nofun
  cases h with
  | plain h =>
    -- A plain scalar that is empty or null would not read as a text.
    have hnull : ¬ (text = "" ∨ isNull text = true) := fun hn => by
      rw [plainValue?, if_pos hn] at h
      cases h
    rw [optionalTextOf, follow_scalar, pure_bind]
    exact congrArg pure (if_neg hnull)
  | quoted hs =>
    rw [optionalTextOf, follow_scalar, pure_bind]
    exact if_pos hs

theorem optionalTextOf_null (h : Shows p.levels p.node .null) :
    optionalTextOf d p.node = pure none := by
  generalize p.node = node at h
  replace h := h.scalarShows nofun nofun
  cases h with
  | null h =>
    rw [optionalTextOf, follow_scalar, pure_bind]
    exact congrArg pure (if_pos h)

theorem flagOf_shown {b : Bool} (h : Shows p.levels p.node (.bool b)) :
    flagOf d p.node = pure b := by
  generalize p.node = node at h
  replace h := h.scalarShows nofun nofun
  cases h with
  | flag h => exact congrArg orFail h

theorem fieldsOf_shown {fs : Fields} (h : Shows p.levels p.node (.object fs)) :
    fieldsOf d p = pure fs := by
  obtain ⟨levels, node⟩ := p
  obtain ⟨n, pairs, entries, rfl, rfl, rfl, -, hshown⟩ := h.exists_mapping
  have hentries := entries_shown d hshown fun node v hv => valueOf_shown d hv
  exact (congrArg (· >>= fun fs => pure (Table.ofList fs)) hentries).trans (pure_bind _ _)

theorem length_eraseDups_of_nodup {keys : List String} (h : keys.Nodup) :
    keys.eraseDups.length = keys.length := by
  induction keys with
  | nil => rfl
  | cons key keys ih =>
    obtain ⟨hkey, hkeys⟩ := List.nodup_cons.1 h
    have hfilter : keys.filter (fun other => !other == key) = keys :=
      List.filter_eq_self.2 fun other ho => by
        simpa using fun he : other = key => hkey (he ▸ ho)
    rw [List.eraseDups_cons, hfilter, List.length_cons, ih hkeys, List.length_cons]

/-- The pairs of a mapping are read as parts that show the entries. -/
theorem exists_parts {n : Nat} {pairs : List (Node × Node)} {entries : Fields}
    (h : List.Forall₂ (fun pair entry => IsKey pair.1 entry.1 ∧ Shows n pair.2 entry.2) pairs
      entries) :
    ∃ parts : List (String × Part), (pairs.mapM fun (key, value) => do
        let key ← textOf d key
        pure (key, Part.mk n value)) = pure parts ∧
      List.Forall₂ (fun part entry => part.1 = entry.1 ∧ Shows part.2.levels part.2.node entry.2)
        parts entries := by
  induction h with
  | nil => exact ⟨[], List.mapM_nil, .nil⟩
  | @cons pair entry pairs entries hp _ ih =>
    obtain ⟨parts, hparts, hshown⟩ := ih
    refine ⟨(entry.1, ⟨n, pair.2⟩) :: parts, ?_, .cons ⟨rfl, hp.2⟩ hshown⟩
    simp only [List.mapM_cons, textOf_key d hp.1, pure_bind, hparts]

theorem partsOf_shown {fs : Fields} (known : List String)
    (h : Shows p.levels p.node (.object fs)) :
    ∃ (entries : Fields) (parts : List (String × Part)), entries.Perm fs ∧
      partsOf d known p = pure parts ∧
      List.Forall₂ (fun part entry => part.1 = entry.1 ∧ Shows part.2.levels part.2.node entry.2)
        parts entries := by
  obtain ⟨levels, node⟩ := p
  obtain ⟨n, pairs, entries, rfl, rfl, rfl, hkeys, hpairs⟩ := h.exists_mapping
  obtain ⟨parts, hparts, hshown⟩ := exists_parts (d := d) hpairs
  refine ⟨entries, parts, (Table.ofList_perm hkeys).symm, ?_, hshown⟩
  have hnodup : ((parts.map Prod.fst).filter known.contains).Nodup := by
    have hk := Table.keys_eq_of_forall₂ (R := fun (p : Part) v => Shows p.levels p.node v) hshown
    exact (hk ▸ hkeys : (Table.keys parts).Nodup).filter _
  have honce : ¬ ((parts.map Prod.fst).filter known.contains).eraseDups.length <
      ((parts.map Prod.fst).filter known.contains).length := by
    rw [length_eraseDups_of_nodup hnodup]
    exact Nat.lt_irrefl _
  have hpairsOf : pairsOf d ⟨n + 1, .mapping none pairs⟩ = pure (n, pairs) := rfl
  simp only [partsOf, hpairsOf, pure_bind, hparts, if_neg honce]

end

end Views.Yaml
