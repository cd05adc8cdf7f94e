import Views.Engine.Render

/-!
# Keys and names

Everything that the engine compiles is a view, a layout or the identity layout (`Origin`), and is
registered under a key. Two origins have one key only if they are one file (`fileOf_of_keyFor`), so
a key can be overwritten only by the text that it already holds. A partial that a marker in a text
refers to is registered under the name in the marker followed by a fixed text
(`partialName_marked`), which is the key of no origin (`partialName_ne_keyFor`).
-/

set_option autoImplicit false

namespace Views

/-! ## Texts -/

/-- A text can be split at the last occurrence of a character in one way only. -/
theorem append_cons_inj {c : Char} {a b d e : List Char} (hd : c ∉ d) (he : c ∉ e)
    (h : a ++ c :: d = b ++ c :: e) : a = b := by
  rcases List.append_eq_append_iff.1 h with ⟨m, rfl, hm⟩ | ⟨m, rfl, hm⟩
  · cases m with
    | nil => rw [List.append_nil]
    | cons x m =>
      have : d = m ++ c :: e := (List.cons.inj hm).2
      exact absurd (by simp [this]) hd
  · cases m with
    | nil => rw [List.append_nil]
    | cons x m =>
      have : e = m ++ c :: d := (List.cons.inj hm).2
      exact absurd (by simp [this]) he

theorem toList_toString_isDigit {n : Nat} {c : Char} (h : c ∈ (toString n).toList) :
    c.isDigit = true := by
  refine Nat.isDigit_of_mem_toDigits (b := 10) (n := n) (by decide) (by decide) ?_
  rwa [Nat.toString_eq_repr, Nat.toList_repr] at h

/-- A path below a directory that is not empty has a slash. -/
theorem Files.slash_mem_join {base : String} (child : String) (h : base ≠ "") :
    '/' ∈ (Files.join base child).toList := by
  unfold Files.join
  split
  · rename_i ha
    exact (Files.isAbsolute_iff.1 ha).subset List.mem_cons_self
  · split
    · rename_i hb
      have hb := Files.hasEnding_iff.1 (hb.resolve_left h)
      exact String.toList_append ▸ List.mem_append_left _ (hb.subset List.mem_cons_self)
    · simp

/-- A path below a directory ends as the path seen from there. -/
theorem Files.suffix_join (base child : String) :
    child.toList <:+ (Files.join base child).toList := by
  unfold Files.join
  split
  · exact List.suffix_refl _
  · split
    · exact String.toList_append ▸ List.suffix_append _ _
    · exact String.toList_append ▸ List.suffix_append _ _

namespace Engine

/-! ## Keys -/

/-- What stands in front of the path in a key. -/
def FileKind.opening (kind : FileKind) : List Char := (kind.word ++ "::").toList

/-- A name that looks like the key of something compiled. -/
def KeyLike (name : String) : Prop := ∃ kind : FileKind, kind.opening <+: name.toList

instance (name : String) : Decidable (KeyLike name) :=
  decidable_of_iff
    (FileKind.opening .view <+: name.toList ∨ FileKind.opening .layout <+: name.toList)
    ⟨fun h => h.elim (⟨_, ·⟩) (⟨_, ·⟩), fun ⟨kind, h⟩ => by
      cases kind with
      | view => exact .inl h
      | layout => exact .inr h⟩

/-- What stands behind the path in a key. -/
def mark : Option Nat → List Char
  | some n => '#' :: (toString n).toList
  | none => []

theorem toList_keyOf (kind : FileKind) (path : String) (i : Option Nat) :
    (keyOf kind path i).toList = kind.opening ++ (path.toList ++ mark i) := by
  cases i <;> simp [keyOf, FileKind.opening, mark]

theorem opening_inj {kind kind' : FileKind} {s : List Char} (h : kind.opening <+: s)
    (h' : kind'.opening <+: s) : kind = kind' := by
  obtain ⟨t, rfl⟩ := h
  obtain ⟨t', h'⟩ := h'
  cases kind <;> cases kind' <;> simp [FileKind.opening, FileKind.word] at h' ⊢

theorem append_mark_inj {a b : List Char} {i j : Option Nat} (hij : i.isSome = j.isSome)
    (h : a ++ mark i = b ++ mark j) : a = b := by
  cases i <;> cases j <;> simp only [Option.isSome_none, Option.isSome_some, reduceCtorEq] at hij
  · simpa [mark] using h
  · exact append_cons_inj (fun hm => absurd (toList_toString_isDigit hm) (by decide))
      (fun hm => absurd (toList_toString_isDigit hm) (by decide)) h

/-- Keys of one mode are equal only for one kind and one path. -/
theorem keyOf_inj {kind kind' : FileKind} {path path' : String} {i j : Option Nat}
    (hij : i.isSome = j.isSome) (h : keyOf kind path i = keyOf kind' path' j) :
    kind = kind' ∧ path = path' := by
  have h := congrArg String.toList h
  rw [toList_keyOf, toList_keyOf] at h
  obtain rfl := opening_inj (List.prefix_append _ _) (h ▸ List.prefix_append _ _)
  exact ⟨rfl, String.toList_inj.1 (append_mark_inj hij (List.append_cancel_left h))⟩

/-- A number has keys of its own. -/
theorem keyOf_some_inj {kind kind' : FileKind} {path path' : String} {n m : Nat}
    (h : keyOf kind path (some n) = keyOf kind' path' (some m)) : n = m := by
  obtain ⟨rfl, rfl⟩ := keyOf_inj (i := some n) (j := some m) rfl h
  have hn : toString n = toString m :=
    (String.append_right_inj _).1 ((String.append_right_inj _).1 h)
  have hd := congrArg String.toList hn
  rw [Nat.toString_eq_repr, Nat.toString_eq_repr, Nat.toList_repr, Nat.toList_repr] at hd
  rw [← Nat.ofDigitChars_ten_toDigits (n := n), hd, Nat.ofDigitChars_ten_toDigits]

theorem identityKey_ne_keyOf_some (kind : FileKind) (path : String) (n : Nat) :
    identityKey ≠ keyOf kind path (some n) := by
  intro he
  have hm : '#' ∈ identityKey.toList := by
    rw [he, toList_keyOf]
    simp [mark]
  exact absurd hm (by decide)

theorem keyLike_keyOf (kind : FileKind) (path : String) (i : Option Nat) :
    KeyLike (keyOf kind path i) :=
  ⟨kind, toList_keyOf kind path i ▸ List.prefix_append _ _⟩

theorem keyLike_identityKey : KeyLike identityKey := ⟨.layout, by decide⟩

theorem identityKey_ne_keyOf {kind : FileKind} {path : String} {i : Option Nat}
    (h : '/' ∈ path.toList) : identityKey ≠ keyOf kind path i := by
  intro he
  have hm : '/' ∈ identityKey.toList := by
    rw [he, toList_keyOf]
    simp [h]
  exact absurd hm (by decide)

/-! ## Origins -/

/-- Where a text comes from that the engine compiles: the file of a view or a layout, or the layout
that writes the body alone. -/
inductive Origin where
  | view (logical : String)
  | layout (name : String)
  | identity
  deriving DecidableEq

variable (e : Engine)

/-- The file of an origin. -/
def fileOf : Origin → Option (FileKind × String)
  | .view logical => some (.view, e.resolver.templatePath logical)
  | .layout name => some (.layout, e.resolver.layoutPath name)
  | .identity => none

/-- The key that an origin is compiled under. -/
def keyFor (o : Origin) (i : Option Nat) : String :=
  match e.fileOf o with
  | some (kind, path) => keyOf kind path i
  | none => identityKey

/-- With caching every compilation has a number, without it none has. -/
def Numbered (i : Option Nat) : Prop := i.isSome = e.config.caching

theorem keyLike_keyFor (o : Origin) (i : Option Nat) : KeyLike (e.keyFor o i) := by
  unfold keyFor
  split
  · exact keyLike_keyOf ..
  · exact keyLike_identityKey

variable {e}

/-- A valid configuration has a directory of views. -/
theorem viewPath_ne_empty {c : Config} (h : c.validate = .ok ()) : c.viewPath ≠ "" := by
  intro he
  rw [Config.validate, if_pos he] at h
  cases h

theorem layoutsDir_ne_empty {c : Config} (h : c.viewPath ≠ "") : c.layoutsDir ≠ "" := by
  unfold Config.layoutsDir
  split
  · exact h
  · assumption

/-- The path of a file is below a directory and ends in the ending. -/
theorem fileOf_path (hv : e.config.viewPath ≠ "") {o : Origin} {kind : FileKind} {path : String}
    (h : e.fileOf o = some (kind, path)) :
    '/' ∈ path.toList ∧ e.config.extname.toList <:+ path.toList := by
  have hjoin (base name : String) (hb : base ≠ "") :
      '/' ∈ (Files.join base (name ++ e.config.extname)).toList ∧
        e.config.extname.toList <:+ (Files.join base (name ++ e.config.extname)).toList :=
    ⟨Files.slash_mem_join _ hb,
      (String.toList_append ▸ List.suffix_append _ _ : _ <:+ _).trans (Files.suffix_join base _)⟩
  cases o with
  | view logical =>
    obtain ⟨-, rfl⟩ := Prod.mk.injEq .. ▸ Option.some.injEq .. ▸ h
    exact hjoin _ _ hv
  | layout name =>
    obtain ⟨-, rfl⟩ := Prod.mk.injEq .. ▸ Option.some.injEq .. ▸ h
    exact hjoin _ _ (layoutsDir_ne_empty hv)
  | identity => simp [fileOf] at h

/-- **A key belongs to one file.** -/
theorem fileOf_of_keyFor (hv : e.config.viewPath ≠ "") {o o' : Origin} {i j : Option Nat}
    (hi : e.Numbered i) (hj : e.Numbered j) (h : e.keyFor o i = e.keyFor o' j) :
    e.fileOf o = e.fileOf o' := by
  unfold keyFor at h
  split at h <;> split at h
  · rename_i kind path ho _ kind' path' ho'
    obtain ⟨rfl, rfl⟩ := keyOf_inj (hi.trans hj.symm) h
    rw [ho, ho']
  · rename_i ho _ _
    exact absurd h.symm (identityKey_ne_keyOf (fileOf_path hv ho).1)
  · rename_i ho'
    exact absurd h (identityKey_ne_keyOf (fileOf_path hv ho').1)
  · rename_i ho _ ho'
    rw [ho, ho']

/-! ## Names in markers -/

/-- A name as a marker gives it. -/
def Marked (name : String) : Prop := ∀ c ∈ name.toList, Markers.isNameChar c = true

theorem marker?_chars {opening s name rest : List Char}
    (h : Markers.marker? opening s = some (name, rest)) :
    ∀ c ∈ name, Markers.isNameChar c = true := by
  unfold Markers.marker? at h
  split at h
  · cases h
  · simp only at h
    split at h
    · obtain ⟨r, -, hr⟩ := Option.map_eq_some_iff.1 h
      obtain ⟨rfl, -⟩ := Prod.mk.injEq .. ▸ hr
      exact fun c hc => (List.all_eq_true.1 List.all_takeWhile) c hc
    · cases h

theorem names_chars {opening s name : List Char} (h : name ∈ Markers.names opening s) :
    ∀ c ∈ name, Markers.isNameChar c = true := by
  induction s using Markers.names.induct opening with
  | case1 => simp [Markers.names] at h
  | case2 c rest first after hm ih =>
    rw [Markers.names, hm] at h
    rcases List.mem_cons.1 h with rfl | h
    · exact marker?_chars hm
    · exact ih h
  | case3 c rest hm ih =>
    rw [Markers.names, hm] at h
    exact ih h

theorem marked_of_mem_partialNames {text name : String} (h : name ∈ Markers.partialNames text) :
    Marked name := by
  refine List.foldlRecOn (motive := fun seen => ∀ n ∈ seen, Marked n) _ _ (by simp) ?_ name h
  intro seen hseen found hfound n hn
  simp only at hn
  split at hn
  · exact hseen n hn
  · rcases List.mem_append.1 hn with hn | hn
    · exact hseen n hn
    · obtain rfl := List.mem_singleton.1 hn
      rw [Marked, String.toList_ofList]
      exact names_chars hfound

/-- What the name of a partial has behind the name in a marker. -/
def ending (extname : String) : String :=
  if '\\' ∈ extname.toList then Files.forwardSlashes extname else ""

theorem backslash_notMem_forwardSlashes (path : String) :
    '\\' ∉ (Files.forwardSlashes path).toList := by
  rw [Files.forwardSlashes, String.toList_map, List.mem_map]
  rintro ⟨c, -, hc⟩
  split at hc
  · exact absurd hc (by decide)
  · contradiction

theorem forwardSlashes_of_notMem {path : String} (h : '\\' ∉ path.toList) :
    Files.forwardSlashes path = path := by
  rw [← String.toList_inj, Files.forwardSlashes, String.toList_map]
  refine (List.map_congr_left fun c hc => ?_).trans (List.map_id _)
  exact if_neg fun hb : c = '\\' => h (hb ▸ hc)

theorem forwardSlashes_append (a b : String) :
    Files.forwardSlashes (a ++ b) = Files.forwardSlashes a ++ Files.forwardSlashes b := by
  rw [← String.toList_inj]
  simp [Files.forwardSlashes, String.toList_map]

theorem dropEnding_append (name ending : String) :
    Files.dropEnding (name ++ ending) ending = name := by
  have hending : Files.hasEnding (name ++ ending) ending = true :=
    Files.hasEnding_iff.2 (String.toList_append ▸ List.suffix_append _ _)
  rw [Files.dropEnding, if_pos hending, ← String.toList_inj, String.toList_ofList,
    String.toList_append, String.length_append, Nat.add_sub_cancel, ← String.length_toList,
    List.take_left]

theorem Marked.notMem {name : String} (h : Marked name) {c : Char}
    (hc : Markers.isNameChar c = false) : c ∉ name.toList := by
  intro hm
  rw [h c hm] at hc
  cases hc

/-- **The name of a partial that a marker refers to.** -/
theorem partialName_marked (s : PartialSource) {name : String} (h : Marked name) :
    s.partialName (name ++ s.extname) = name ++ ending s.extname := by
  have hn := h.notMem (c := '\\') (by decide)
  unfold PartialSource.partialName ending
  split
  · rename_i hb
    have he : ¬ Files.hasEnding (Files.forwardSlashes (name ++ s.extname)) s.extname = true :=
      fun he => backslash_notMem_forwardSlashes _ ((Files.hasEnding_iff.1 he).subset hb)
    rw [Files.dropEnding, if_neg he, forwardSlashes_append, forwardSlashes_of_notMem hn]
  · rename_i hb
    rw [forwardSlashes_of_notMem (by simp [hn, hb]), dropEnding_append, String.append_empty]

theorem slash_mem_ending {extname : String} (h : '\\' ∈ extname.toList) :
    '/' ∈ (ending extname).toList := by
  rw [ending, if_pos h, Files.forwardSlashes, String.toList_map]
  exact List.mem_map.2 ⟨_, h, rfl⟩

/-- **A partial that a marker refers to has the key of no origin.** -/
theorem partialName_ne_keyFor (hv : e.config.viewPath ≠ "") {name : String} (h : Marked name)
    (o : Origin) (i : Option Nat) : name ++ ending e.config.extname ≠ e.keyFor o i := by
  intro he
  have hl := congrArg String.toList he
  rw [String.toList_append] at hl
  by_cases hb : '\\' ∈ e.config.extname.toList
  · unfold keyFor at hl
    split at hl
    · rename_i kind path ho
      have hm : '\\' ∈ name.toList ++ (ending e.config.extname).toList := by
        rw [hl, toList_keyOf]
        simp [(fileOf_path hv ho).2.subset hb]
      rw [ending, if_pos hb] at hm
      rcases List.mem_append.1 hm with hm | hm
      · exact h.notMem (by decide) hm
      · exact backslash_notMem_forwardSlashes _ hm
    · have hm := hl ▸ List.mem_append_right name.toList (slash_mem_ending hb)
      exact absurd hm (by decide)
  · obtain ⟨kind, t, ht⟩ := e.keyLike_keyFor o i
    have hc : ':' ∈ name.toList := by
      rw [ending, if_neg hb, String.toList_empty, List.append_nil] at hl
      rw [hl, ← ht]
      exact List.mem_append_left _ (by cases kind <;> decide)
    exact h.notMem (by decide) hc

end Engine

end Views
