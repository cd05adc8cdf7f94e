import Mathlib.Data.List.Forall2
import Mathlib.Data.List.Perm.Basic
import Views.Config.Document
import Views.Proofs.Table

/-!
# Decoding as an overlay

A document that gives some of the options of a configuration (`Config.Excerpt`) is what is left of
the document of the configuration when only some keys are kept, together with entries of unknown
keys, in any order. Decoding it gives the options of the kept keys and the defaults of the others
(`Config.keep`), in every format whose parts are read as the values that they show (`Form.Reads`):
this is `Config.decodeWith_excerpt`.
-/

set_option autoImplicit false

namespace Views

/-- The fields of an object. -/
def Value.fields : Value → Fields
  | .object fs => fs
  | _ => []

/-- Those entries of a document whose keys are kept, and entries whose keys are not known, in any
order. -/
def Excerpt {α : Type} (known kept : List String) (full entries : List (String × α)) : Prop :=
  ∃ unknown : List (String × α), (∀ entry ∈ unknown, entry.1 ∉ known) ∧
    entries.Perm (full.filter (fun entry => kept.contains entry.1) ++ unknown)

namespace Excerpt

variable {α : Type} {known kept : List String} {full entries entries' : Table α}

theorem perm (h : Excerpt known kept full entries) (hp : entries'.Perm entries) :
    Excerpt known kept full entries' :=
  h.imp fun _ hu => ⟨hu.1, hp.trans hu.2⟩

/-- A document is an excerpt of itself, with all its keys kept. -/
theorem self (h : ∀ entry ∈ full, entry.1 ∈ kept) : Excerpt known kept full full := by
  refine ⟨[], fun entry he => absurd he List.not_mem_nil, ?_⟩
  rw [List.append_nil, List.filter_eq_self.2 fun entry he => List.contains_iff_mem.2 (h entry he)]

theorem mem_or_unknown (h : Excerpt known kept full entries) {entry : String × α}
    (he : entry ∈ entries) : entry ∈ full ∨ entry.1 ∉ known := by
  obtain ⟨unknown, hu, hp⟩ := h
  rcases List.mem_append.1 (hp.mem_iff.1 he) with he | he
  · exact .inl (List.mem_filter.1 he).1
  · exact .inr (hu entry he)

/-- A known key is there if it is kept. -/
theorem mem_keys_iff (h : Excerpt known kept full entries) {key : String} (hk : key ∈ known)
    (hfull : key ∈ full.keys) : key ∈ entries.keys ↔ key ∈ kept := by
  obtain ⟨unknown, hu, hp⟩ := h
  rw [Table.keys, (hp.map Prod.fst).mem_iff, List.map_append, List.mem_append]
  constructor
  · rintro (h | h)
    · obtain ⟨entry, he, rfl⟩ := List.mem_map.1 h
      exact List.contains_iff_mem.1 (List.mem_filter.1 he).2
    · obtain ⟨entry, he, rfl⟩ := List.mem_map.1 h
      exact absurd hk (hu entry he)
  · intro h
    obtain ⟨entry, he, rfl⟩ := List.mem_map.1 hfull
    exact .inl (List.mem_map_of_mem (List.mem_filter.2 ⟨he, List.contains_iff_mem.2 h⟩))

end Excerpt

/-! ## Options of some keys -/

/-- The upper one of two options if its key is among some. -/
def pick {α : Type} (keys : List String) (key : String) (upper base : α) : α :=
  if key ∈ keys then upper else base

section

variable {α : Type} (key : String) (upper base : α)

@[simp] theorem pick_pick (keys keys' : List String) :
    pick keys' key upper (pick keys key upper base) = pick (keys ++ keys') key upper base := by
  unfold pick
  by_cases h : key ∈ keys <;> by_cases h' : key ∈ keys' <;> simp [h, h']

end

namespace TemplateOptions

/-- Some options over those of a base. -/
def overlaid (base upper : TemplateOptions) (keys : List String) : TemplateOptions where
  strictMode := pick keys "strict-mode" upper.strictMode base.strictMode
  noEscape := pick keys "no-escape" upper.noEscape base.noEscape
  data := pick keys "data" upper.data base.data

/-- The options of some keys, and the defaults of the others. -/
def keep (o : TemplateOptions) (kept : List String) : TemplateOptions := overlaid {} o kept

variable (base upper : TemplateOptions)

theorem overlaid_append (keys keys' : List String) :
    (base.overlaid upper keys).overlaid upper keys' = base.overlaid upper (keys ++ keys') := by
  simp [overlaid]

theorem overlaid_congr {kept kept' : List String} (h : ∀ key ∈ keys, key ∈ kept ↔ key ∈ kept') :
    base.overlaid upper kept = base.overlaid upper kept' := by
  simp only [keys, List.forall_mem_cons] at h
  simp only [overlaid, pick, h]

@[simp] theorem keep_keys (o : TemplateOptions) : o.keep keys = o := by
  simp [keep, overlaid, pick, keys]

theorem overlaid_of_notMem {key : String} (h : key ∉ keys) : base.overlaid upper [key] = base :=
  have hother : ∀ other ∈ keys, other ∈ [key] ↔ other ∈ ([] : List String) := fun other ho => by
    simpa using fun he : other = key => h (he ▸ ho)
  overlaid_congr base upper hother

end TemplateOptions

namespace Config

/-- Some options over those of a base. -/
def overlaid (base upper : Config) (keys : List String) : Config where
  viewPath := pick keys "view-path" upper.viewPath base.viewPath
  extname := pick keys "extname" upper.extname base.extname
  partialsPath := pick keys "partials-path" upper.partialsPath base.partialsPath
  layoutsPath := pick keys "layouts-path" upper.layoutsPath base.layoutsPath
  defaultLayout := pick keys "default-layout" upper.defaultLayout base.defaultLayout
  contentHelperName := pick keys "content-helper-name" upper.contentHelperName
    base.contentHelperName
  blockHelperName := pick keys "block-helper-name" upper.blockHelperName base.blockHelperName
  locals := pick keys "locals" upper.locals base.locals
  disableCache := pick keys "disable-cache" upper.disableCache base.disableCache
  hostKey := pick keys "host-key" upper.hostKey base.hostKey
  templateOptions := pick keys "template-options" upper.templateOptions base.templateOptions
  logLevel := pick keys "log-level" upper.logLevel base.logLevel

/-- The options of some keys, and the defaults of the others; `inner` are the keys of those options
of the template compiler that are kept. -/
def keep (c : Config) (kept inner : List String) : Config :=
  overlaid {} { c with templateOptions := c.templateOptions.keep inner } kept

/-- A document that gives the options of a configuration that have kept keys; inside of the options
of the template compiler, `inner` are the keys that are kept. -/
def Excerpt (c : Config) (kept inner : List String) (doc : Value) : Prop :=
  ∃ options entries : Fields,
    Views.Excerpt TemplateOptions.keys inner c.templateOptions.encode.fields options ∧
    Views.Excerpt keys kept (c.encode.fields.insert "template-options" (.object options)) entries ∧
    doc = .object entries

variable (base upper : Config)

theorem overlaid_append (keys keys' : List String) :
    (base.overlaid upper keys).overlaid upper keys' = base.overlaid upper (keys ++ keys') := by
  simp [overlaid]

theorem overlaid_congr {kept kept' : List String} (h : ∀ key ∈ keys, key ∈ kept ↔ key ∈ kept') :
    base.overlaid upper kept = base.overlaid upper kept' := by
  simp only [keys, List.forall_mem_cons] at h
  simp only [overlaid, pick, h]

@[simp] theorem keep_keys (c : Config) : c.keep keys TemplateOptions.keys = c := by
  simp [keep, overlaid, pick, keys]

theorem overlaid_of_notMem {key : String} (h : key ∉ keys) : base.overlaid upper [key] = base :=
  have hother : ∀ other ∈ keys, other ∈ [key] ↔ other ∈ ([] : List String) := fun other ho => by
    simpa using fun he : other = key => h (he ▸ ho)
  overlaid_congr base upper hother

end Config

/-! ## Reading documents -/

section

variable {m : Type → Type} [Monad m] {Part : Type}

/-- The parts of documents are read as the values that they show; the entries of an object may
stand in any order. -/
structure Form.Reads (form : Form m Part) (shows : Part → Value → Prop) : Prop where
  text {part : Part} {s : String} (h : shows part (.string s)) : form.text part = pure s
  optionalText {part : Part} {s : String} (h : shows part (.string s)) :
    form.optionalText part = pure (some s)
  nothing {part : Part} (h : shows part .null) : form.optionalText part = pure none
  flag {part : Part} {b : Bool} (h : shows part (.bool b)) : form.flag part = pure b
  fields {part : Part} {fs : Fields} (h : shows part (.object fs)) : form.fields part = pure fs
  parts {part : Part} {fs : Fields} (known : List String) (h : shows part (.object fs)) :
    ∃ (entries : Fields) (parts : List (String × Part)), entries.Perm fs ∧
      form.parts known part = pure parts ∧
      List.Forall₂ (fun p entry => p.1 = entry.1 ∧ shows p.2 entry.2) parts entries

theorem exists_of_forall₂ {α β : Type} {R : α → β → Prop} {xs : List α} {ys : List β}
    (h : List.Forall₂ R xs ys) {x : α} (hx : x ∈ xs) : ∃ y ∈ ys, R x y := by
  induction h with
  | nil => cases hx
  | @cons a b xs ys hr _ ih =>
    rcases List.mem_cons.1 hx with rfl | hx
    · exact ⟨b, List.mem_cons_self, hr⟩
    · obtain ⟨y, hy, hr⟩ := ih hx
      exact ⟨y, List.mem_cons_of_mem _ hy, hr⟩

/-- Overlaying parts one after the other overlays the options of their keys. -/
theorem foldlM_eq_overlaid [LawfulMonad m] {β : Type} {step : β → String × Part → m β}
    {f : β → List String → β} (hnil : ∀ b, f b [] = b)
    (happend : ∀ b keys keys', f (f b keys) keys' = f b (keys ++ keys'))
    {parts : List (String × Part)} (h : ∀ p ∈ parts, ∀ b, step b p = pure (f b [p.1]))
    (base : β) : parts.foldlM step base = pure (f base (Table.keys parts)) := by
  induction parts generalizing base with
  | nil => rw [List.foldlM_nil, Table.keys, List.map_nil, hnil]
  | cons p parts ih =>
    obtain ⟨hp, hparts⟩ := List.forall_mem_cons.1 h
    rw [List.foldlM_cons, hp, pure_bind, ih hparts, happend]
    rfl

end

/-! ## Documents -/

namespace TemplateOptions

theorem fields_encode (o : TemplateOptions) : o.encode.fields =
    [("data", .object o.data), ("no-escape", .bool o.noEscape),
      ("strict-mode", .bool o.strictMode)] := by
  simp only [encode, Value.fields, Table.ofList, Table.union, List.foldl_cons, List.foldl_nil,
    Table.insert, String.reduceEq, String.reduceLT, ↓reduceIte]

theorem encode_eq (o : TemplateOptions) : o.encode = .object o.encode.fields := by
  simp only [encode, Value.fields]

theorem ordered_encode (o : TemplateOptions) : o.encode.fields.Ordered := by
  simp only [encode, Value.fields]
  exact Table.ordered_ofList _

section

variable {m : Type → Type} [Monad m] {Part : Type} {form : Form m Part}

theorem overlay_unknown {key : String} (hk : key ∉ keys) (part : Part) (base : TemplateOptions) :
    overlay form base (key, part) = pure base := by
  simp only [keys, List.mem_cons, List.not_mem_nil, or_false, not_or] at hk
  simp [overlay, hk]

variable [LawfulMonad m] {shows : Part → Value → Prop}

theorem overlay_shown (hf : form.Reads shows) {o : TemplateOptions} {key : String} {v : Value}
    {part : Part} (hv : (key, v) ∈ o.encode.fields) (h : shows part v) (base : TemplateOptions) :
    overlay form base (key, part) = pure (base.overlaid o [key]) := by
  simp only [fields_encode, List.mem_cons, List.not_mem_nil, Prod.mk.injEq, or_false] at hv
  rcases hv with ⟨rfl, rfl⟩ | ⟨rfl, rfl⟩ | ⟨rfl, rfl⟩
  · simp [overlay, hf.fields h, overlaid, pick]
  · simp [overlay, hf.flag h, overlaid, pick]
  · simp [overlay, hf.flag h, overlaid, pick]

/-- **Decoding some of the options of the template compiler** gives these, and the defaults of the
others. -/
theorem decodeWith_excerpt (hf : form.Reads shows) {o : TemplateOptions} {inner : List String}
    {options : Fields} {part : Part} (h : shows part (.object options))
    (he : Excerpt keys inner o.encode.fields options) :
    decodeWith form part = pure (o.keep inner) := by
  obtain ⟨entries, parts, hperm, hparts, hshown⟩ := hf.parts keys h
  have he := he.perm hperm
  have hstep : ∀ p ∈ parts, ∀ b, overlay form b p = pure (b.overlaid o [p.1]) := by
    rintro ⟨key, part⟩ hp b
    obtain ⟨⟨_, v⟩, hentry, rfl, hv⟩ := exists_of_forall₂ hshown hp
    rcases he.mem_or_unknown hentry with hmem | hunknown
    · exact overlay_shown hf hmem hv b
    · rw [overlay_unknown hunknown, overlaid_of_notMem b o hunknown]
  rw [decodeWith, hparts, pure_bind,
    foldlM_eq_overlaid (f := fun b keys => b.overlaid o keys) (fun b => rfl)
      (fun b => b.overlaid_append o) hstep, Table.keys_eq_of_forall₂ hshown]
  refine congrArg pure (overlaid_congr _ _ fun key hk => he.mem_keys_iff hk ?_)
  rw [fields_encode]
  simpa [keys, Table.keys, or_comm, or_left_comm] using hk

end

end TemplateOptions

namespace Config

theorem fields_encode (c : Config) : c.encode.fields =
    [("block-helper-name", .string c.blockHelperName),
      ("content-helper-name", .string c.contentHelperName),
      ("default-layout", encodeOptional c.defaultLayout), ("disable-cache", .bool c.disableCache),
      ("extname", .string c.extname), ("host-key", .string c.hostKey),
      ("layouts-path", .string c.layoutsPath), ("locals", .object c.locals),
      ("log-level", encodeOptional c.logLevel), ("partials-path", .string c.partialsPath),
      ("template-options", c.templateOptions.encode), ("view-path", .string c.viewPath)] := by
  simp only [encode, Value.fields, Table.ofList, Table.union, List.foldl_cons, List.foldl_nil,
    Table.insert, String.reduceEq, String.reduceLT, ↓reduceIte]

theorem encode_eq (c : Config) : c.encode = .object c.encode.fields := by
  simp only [encode, Value.fields]

theorem ordered_encode (c : Config) : c.encode.fields.Ordered := by
  simp only [encode, Value.fields]
  exact Table.ordered_ofList _

/-- The document of a configuration, with other options of the template compiler. -/
theorem fields_encode_insert (c : Config) (options : Value) :
    c.encode.fields.insert "template-options" options =
      [("block-helper-name", .string c.blockHelperName),
        ("content-helper-name", .string c.contentHelperName),
        ("default-layout", encodeOptional c.defaultLayout), ("disable-cache", .bool c.disableCache),
        ("extname", .string c.extname), ("host-key", .string c.hostKey),
        ("layouts-path", .string c.layoutsPath), ("locals", .object c.locals),
        ("log-level", encodeOptional c.logLevel), ("partials-path", .string c.partialsPath),
        ("template-options", options), ("view-path", .string c.viewPath)] := by
  simp only [fields_encode, Table.insert, String.reduceEq, String.reduceLT, ↓reduceIte]

/-- The whole document of a configuration gives all its options. -/
theorem excerpt_encode (c : Config) : c.Excerpt keys TemplateOptions.keys c.encode := by
  have hinner := c.templateOptions.encode_eq.symm
  have hself : c.encode.fields.insert "template-options" c.templateOptions.encode =
      c.encode.fields := by rw [fields_encode_insert, fields_encode]
  refine ⟨c.templateOptions.encode.fields, c.encode.fields, .self ?_, ?_, ?_⟩
  · simp [TemplateOptions.fields_encode, TemplateOptions.keys]
  · rw [hinner, hself]
    refine .self ?_
    simp [fields_encode, keys]
  · exact c.encode_eq

section

variable {m : Type → Type} [Monad m] {Part : Type} {form : Form m Part}
  {shows : Part → Value → Prop}

theorem overlay_unknown {key : String} (hk : key ∉ keys) (part : Part) (base : Config) :
    overlay form base (key, part) = pure base := by
  simp only [keys, List.mem_cons, List.not_mem_nil, or_false, not_or] at hk
  simp [overlay, hk]

theorem optionalText_shown (hf : form.Reads shows) {s : Option String} {part : Part}
    (h : shows part (encodeOptional s)) : form.optionalText part = pure s := by
  cases s with
  | none => exact hf.nothing h
  | some s => exact hf.optionalText h

variable [LawfulMonad m]

theorem overlay_shown (hf : form.Reads shows) {c : Config} {inner : List String} {options : Fields}
    (ho : Views.Excerpt TemplateOptions.keys inner c.templateOptions.encode.fields options)
    {key : String} {v : Value} {part : Part}
    (hv : (key, v) ∈ c.encode.fields.insert "template-options" (.object options))
    (h : shows part v) (base : Config) : overlay form base (key, part) =
      pure (base.overlaid { c with templateOptions := c.templateOptions.keep inner } [key]) := by
  simp only [fields_encode_insert, List.mem_cons, List.not_mem_nil, Prod.mk.injEq, or_false] at hv
  rcases hv with ⟨rfl, rfl⟩ | ⟨rfl, rfl⟩ | ⟨rfl, rfl⟩ | ⟨rfl, rfl⟩ | ⟨rfl, rfl⟩ | ⟨rfl, rfl⟩ |
    ⟨rfl, rfl⟩ | ⟨rfl, rfl⟩ | ⟨rfl, rfl⟩ | ⟨rfl, rfl⟩ | ⟨rfl, rfl⟩ | ⟨rfl, rfl⟩
  · simp [overlay, hf.text h, overlaid, pick]
  · simp [overlay, hf.text h, overlaid, pick]
  · simp [overlay, optionalText_shown hf h, overlaid, pick]
  · simp [overlay, hf.flag h, overlaid, pick]
  · simp [overlay, hf.text h, overlaid, pick]
  · simp [overlay, hf.text h, overlaid, pick]
  · simp [overlay, hf.text h, overlaid, pick]
  · simp [overlay, hf.fields h, overlaid, pick]
  · simp [overlay, optionalText_shown hf h, overlaid, pick]
  · simp [overlay, hf.text h, overlaid, pick]
  · simp [overlay, TemplateOptions.decodeWith_excerpt hf h ho, overlaid, pick]
  · simp [overlay, hf.text h, overlaid, pick]

/-- **Decoding some of the options of a configuration** gives these, and the defaults of the
others. -/
theorem decodeWith_excerpt (hf : form.Reads shows) {c : Config} {kept inner : List String}
    {doc : Value} {part : Part} (h : shows part doc) (he : c.Excerpt kept inner doc) :
    decodeWith form part = pure (c.keep kept inner) := by
  obtain ⟨options, fs, ho, he, rfl⟩ := he
  obtain ⟨entries, parts, hperm, hparts, hshown⟩ := hf.parts keys h
  have he := he.perm hperm
  have hstep : ∀ p ∈ parts, ∀ b, overlay form b p =
      pure (b.overlaid { c with templateOptions := c.templateOptions.keep inner } [p.1]) := by
    rintro ⟨key, part⟩ hp b
    obtain ⟨⟨_, v⟩, hentry, rfl, hv⟩ := exists_of_forall₂ hshown hp
    rcases he.mem_or_unknown hentry with hmem | hunknown
    · exact overlay_shown hf ho hmem hv b
    · rw [overlay_unknown hunknown, overlaid_of_notMem b _ hunknown]
  rw [decodeWith, hparts, pure_bind, foldlM_eq_overlaid
      (f := fun b => b.overlaid { c with templateOptions := c.templateOptions.keep inner })
      (fun b => rfl) (fun b => b.overlaid_append _) hstep, Table.keys_eq_of_forall₂ hshown]
  refine congrArg pure (overlaid_congr _ _ fun key hk => he.mem_keys_iff hk ?_)
  rw [fields_encode_insert]
  simp only [keys, List.mem_cons, List.not_mem_nil, or_false] at hk
  simp only [Table.keys, List.map_cons, List.map_nil, List.mem_cons, List.not_mem_nil, or_false]
  tauto

end

/-- A document that is a value shows that value. -/
theorem valueForm_reads : valueForm.Reads fun part v : Value => part = v where
  text := by rintro _ s rfl; rfl
  optionalText := by rintro _ s rfl; rfl
  nothing := by rintro _ rfl; rfl
  flag := by rintro _ b rfl; rfl
  fields := by rintro _ fs rfl; rfl
  parts := by
    rintro _ fs known rfl
    exact ⟨fs, fs, .refl _, rfl, List.forall₂_same.2 fun _ _ => ⟨rfl, rfl⟩⟩

end Config

end Views
