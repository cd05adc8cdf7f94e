import Mathlib.Data.List.Induction
import Mathlib.Tactic.SplitIfs
import Views.Files.Tree

/-!
# Names along a path

A path that is joined from names has these names as its components (`components_joinAll`), and it is
the same whether the names are joined to the base one by one or as a relative path first
(`join_relative`). The order of names, which is that of their code points, is the order of their
bytes (`bytes_lt_bytes`).
-/

set_option autoImplicit false

namespace Views.Files

/-- A text that may stand between two slashes of a path. -/
structure Component (c : String) : Prop where
  ne_empty : c ≠ ""
  slash : '/' ∉ c.toList
  nul : '\x00' ∉ c.toList

/-- The name of an entry as a file system allows it. -/
structure Plain (name : String) : Prop extends Component name where
  dot : name ≠ "."
  dots : name ≠ ".."
  size : name.utf8ByteSize ≤ FileTree.maxName

instance (name : String) : Decidable (Plain name) :=
  decidable_of_iff (name ≠ "" ∧ '/' ∉ name.toList ∧ '\x00' ∉ name.toList ∧ name ≠ "." ∧
      name ≠ ".." ∧ name.utf8ByteSize ≤ FileTree.maxName)
    ⟨fun ⟨a, b, c, d, e, f⟩ => ⟨⟨a, b, c⟩, d, e, f⟩, fun ⟨⟨a, b, c⟩, d, e, f⟩ => ⟨a, b, c, d, e, f⟩⟩

/-- The path that some names lead along from a base. -/
def joinAll (base : String) (names : List String) : String := names.foldl join base

/-- The relative path of some names. -/
def relative (names : List String) : String := "/".intercalate names

/-- The bytes of a name. -/
def bytes (name : String) : List UInt8 := name.toList.flatMap String.utf8EncodeChar

variable {base path name : String} {names : List String}

@[simp] theorem joinAll_nil (base : String) : joinAll base [] = base := rfl

theorem joinAll_concat (base : String) (names : List String) (name : String) :
    joinAll base (names ++ [name]) = join (joinAll base names) name := by
  rw [joinAll, List.foldl_append]
  rfl

theorem Plain.not_isAbsolute (h : Plain name) : isAbsolute name = false := by
  rw [← Bool.not_eq_true, isAbsolute_iff]
  exact fun ha => h.slash (ha.subset List.mem_cons_self)

theorem Plain.not_hasEnding (h : Plain name) : hasEnding name "/" = false := by
  rw [← Bool.not_eq_true, hasEnding_iff]
  exact fun hs => h.slash (hs.subset List.mem_cons_self)

/-! ## Joining -/

/-- Whether there is a slash at the end is up to the last text. -/
theorem hasEnding_append (front : String) (hp : path ≠ "") :
    hasEnding (front ++ path) "/" = hasEnding path "/" := by
  have hne : path.toList ≠ [] := fun he => hp (String.toList_eq_nil_iff.1 he)
  rw [Bool.eq_iff_iff, hasEnding_iff, hasEnding_iff, String.toList_append,
    show ("/" : String).toList = ['/'] from rfl, List.singleton_suffix_iff_getLast?_eq_some,
    List.singleton_suffix_iff_getLast?_eq_some, List.getLast?_append,
    List.getLast?_eq_some_getLast hne, Option.some_or]

/-- What stands between a base and a name. -/
def separator (base : String) : String := if base = "" ∨ hasEnding base "/" then "" else "/"

theorem join_eq (hp : isAbsolute path = false) :
    join base path = base ++ separator base ++ path := by
  rw [join, if_neg (by simp [hp]), separator]
  split <;> simp

@[simp] theorem join_empty (path : String) : join "" path = path := by
  simp [join]

theorem join_ne_empty (h : Plain name) (path : String) : join path name ≠ "" := by
  rw [join_eq h.not_isAbsolute]
  exact fun he => h.ne_empty (String.append_eq_empty_iff.1 he).2

theorem hasEnding_join (h : Plain name) (path : String) :
    hasEnding (join path name) "/" = false := by
  rw [join_eq h.not_isAbsolute, hasEnding_append _ h.ne_empty, h.not_hasEnding]

theorem isAbsolute_append (hp : path ≠ "") (rest : String) :
    isAbsolute (path ++ rest) = isAbsolute path := by
  rw [Bool.eq_iff_iff, isAbsolute_iff, isAbsolute_iff, String.toList_append]
  cases hl : path.toList with
  | nil => exact absurd (String.toList_eq_nil_iff.1 hl) hp
  | cons c cs => simp

theorem isAbsolute_join (h : Plain name) (hp : path ≠ "") :
    isAbsolute (join path name) = isAbsolute path := by
  rw [join_eq h.not_isAbsolute, String.append_assoc, isAbsolute_append hp]

/-- A relative path that does not end in a slash may be joined to a base before or after a name is
joined to it. -/
theorem join_join (h : Plain name) (hp : path ≠ "") (ha : isAbsolute path = false)
    (hs : hasEnding path "/" = false) :
    join base (join path name) = join (join base path) name := by
  have hseparator (front : String) : separator (front ++ path) = "/" := by
    rw [separator, if_neg]
    simp [hp, hasEnding_append front hp, hs]
  have hpath : separator path = "/" := by simpa using hseparator ""
  rw [join_eq (isAbsolute_join h hp ▸ ha), join_eq h.not_isAbsolute, join_eq ha,
    join_eq h.not_isAbsolute, hseparator, hpath]
  simp only [String.append_assoc]

theorem nul_notMem_join (h : Plain name) (hp : '\x00' ∉ path.toList) :
    '\x00' ∉ (join path name).toList := by
  rw [join_eq h.not_isAbsolute, separator]
  split <;> simp [hp, h.nul]

theorem utf8ByteSize_le_join (h : Plain name) (path : String) :
    path.utf8ByteSize + name.utf8ByteSize ≤ (join path name).utf8ByteSize := by
  rw [join_eq h.not_isAbsolute, String.utf8ByteSize_append, String.utf8ByteSize_append]
  omega

theorem joinAll_ne_empty (hb : base ≠ "") (h : ∀ name ∈ names, Plain name) :
    joinAll base names ≠ "" := by
  rcases names.eq_nil_or_concat with rfl | ⟨front, name, rfl⟩
  · exact hb
  · rw [List.concat_eq_append] at h ⊢
    rw [joinAll_concat]
    exact join_ne_empty (h name (by simp)) _

/-! ## Components -/

theorem mem_splitOn {α : Type} [BEq α] [LawfulBEq α] {a : α} {xs part : List α}
    (h : part ∈ xs.splitOn a) : a ∉ part ∧ part ⊆ xs := by
  induction xs generalizing part with
  | nil =>
    rw [List.splitOn_nil, List.mem_singleton] at h
    simp [h]
  | cons x xs ih =>
    rw [List.splitOn_cons_eq_if_modifyHead] at h
    split at h
    · rcases List.mem_cons.1 h with rfl | h
      · simp
      · exact ⟨(ih h).1, List.subset_cons_of_subset x (ih h).2⟩
    · rename_i hx
      cases hs : xs.splitOn a with
      | nil => exact absurd hs (List.splitOn_ne_nil _ _)
      | cons first rest =>
        rw [hs, List.modifyHead_cons] at h
        rcases List.mem_cons.1 h with rfl | h
        · have hm : first ∈ xs.splitOn a := hs ▸ List.mem_cons_self
          obtain ⟨hnot, hsubset⟩ := ih hm
          refine ⟨List.not_mem_cons_of_ne_of_not_mem (fun he => hx ?_) hnot,
            List.cons_subset_cons x hsubset⟩
          exact beq_iff_eq.2 he.symm
        · have hm : part ∈ xs.splitOn a := hs ▸ List.mem_cons_of_mem _ h
          obtain ⟨hnot, hsubset⟩ := ih hm
          exact ⟨hnot, List.subset_cons_of_subset x hsubset⟩

theorem component_of_mem {c : String} (hp : '\x00' ∉ path.toList)
    (h : c ∈ FileTree.components path) : Component c := by
  obtain ⟨hmem, hne⟩ := List.mem_filter.1 h
  obtain ⟨part, hpart, rfl⟩ := List.mem_map.1 hmem
  obtain ⟨hslash, hsubset⟩ := mem_splitOn hpart
  refine ⟨by simpa using hne, ?_, ?_⟩
  · rwa [String.toList_ofList]
  · rw [String.toList_ofList]
    exact fun hm => hp (hsubset hm)

/-- The components of two paths with a slash between them. -/
theorem components_append (a b : String) :
    FileTree.components (a ++ "/" ++ b) = FileTree.components a ++ FileTree.components b := by
  have hlist : (a ++ "/" ++ b).toList = a.toList ++ '/' :: b.toList := by simp
  rw [FileTree.components, hlist, List.splitOn_append_cons_self, List.map_append,
    List.filter_append]
  rfl

theorem components_slash (path : String) :
    FileTree.components (path ++ "/") = FileTree.components path := by
  have happend := components_append path ""
  rwa [String.append_empty, show FileTree.components "" = [] from rfl, List.append_nil] at happend

theorem components_plain (h : Plain name) : FileTree.components name = [name] := by
  rw [FileTree.components, List.splitOn_eq_singleton h.slash]
  simp [h.ne_empty]

theorem components_join (h : Plain name) (path : String) :
    FileTree.components (join path name) = FileTree.components path ++ [name] := by
  rw [join_eq h.not_isAbsolute, separator]
  split
  · rename_i hp
    rw [String.append_empty]
    rcases hp with rfl | hp
    · rw [String.empty_append, components_plain h]
      rfl
    · obtain ⟨front, hfront⟩ := hasEnding_iff.1 hp
      obtain rfl : String.ofList front ++ "/" = path := by
        rw [← String.toList_inj, String.toList_append, String.toList_ofList, hfront]
      rw [components_append, components_plain h, components_slash]
  · rw [components_append, components_plain h]

theorem components_joinAll (base : String) (h : ∀ name ∈ names, Plain name) :
    FileTree.components (joinAll base names) = FileTree.components base ++ names := by
  induction names using List.reverseRecOn with
  | nil => rw [joinAll_nil, List.append_nil]
  | append_singleton names name ih =>
    rw [joinAll_concat, components_join (h name (by simp)), ih fun n hn => h n (by simp [hn]),
      List.append_assoc]

/-! ## Slashes -/

/-- Slashes, as they may stand at the end of a path. -/
def slashes (n : Nat) : String := String.ofList (List.replicate n '/')

theorem slashes_succ (n : Nat) : slashes (n + 1) = slashes n ++ "/" := by
  rw [← String.toList_inj, slashes, slashes, String.toList_append, String.toList_ofList,
    String.toList_ofList, List.replicate_succ']
  rfl

theorem utf8ByteSize_slashes (n : Nat) : (slashes n).utf8ByteSize = n := by
  induction n with
  | zero => rfl
  | succ n ih =>
    rw [slashes_succ, String.utf8ByteSize_append, ih]
    rfl

theorem eq_of_mem_slashes {n : Nat} {c : Char} (h : c ∈ (slashes n).toList) : c = '/' := by
  rw [slashes, String.toList_ofList] at h
  exact List.eq_of_mem_replicate h

/-- Slashes at the end are no components. -/
theorem components_slashes (path : String) (n : Nat) :
    FileTree.components (path ++ slashes n) = FileTree.components path := by
  induction n with
  | zero => rw [show slashes 0 = "" from rfl, String.append_empty]
  | succ n ih =>
    rw [slashes_succ, ← String.append_assoc, components_slash, ih]

/-! ## Relative paths -/

/-- Joined names are a relative path without a slash at its end. -/
theorem joinAll_empty (hn : names ≠ []) (h : ∀ name ∈ names, Plain name) :
    joinAll "" names ≠ "" ∧ isAbsolute (joinAll "" names) = false ∧
      hasEnding (joinAll "" names) "/" = false := by
  induction names using List.reverseRecOn with
  | nil => exact absurd rfl hn
  | append_singleton front name ih =>
    have hlast : Plain name := h name (by simp)
    rw [joinAll_concat]
    refine ⟨join_ne_empty hlast _, ?_, hasEnding_join hlast _⟩
    by_cases hfront : front = []
    · rw [hfront, joinAll_nil, join_empty]
      exact hlast.not_isAbsolute
    · obtain ⟨hne, ha, -⟩ := ih hfront fun n hn => h n (by simp [hn])
      rw [isAbsolute_join hlast hne, ha]

theorem relative_eq (h : ∀ name ∈ names, Plain name) : relative names = joinAll "" names := by
  induction names using List.reverseRecOn with
  | nil => rfl
  | append_singleton front name ih =>
    have hfront : ∀ name ∈ front, Plain name := fun n hn => h n (by simp [hn])
    rw [joinAll_concat, join_eq (h name (by simp)).not_isAbsolute, ← ih hfront]
    by_cases hn : front = []
    · rw [hn]
      simp [relative, separator]
    · obtain ⟨hne, -, hs⟩ := joinAll_empty hn hfront
      rw [separator, if_neg (by simp [ih hfront, hne, hs]), relative,
        String.intercalate_append_of_ne_nil hn (List.cons_ne_nil _ _),
        String.intercalate_singleton]
      rfl

/-- The names can be read off a relative path. -/
theorem components_relative (h : ∀ name ∈ names, Plain name) :
    FileTree.components (relative names) = names := by
  rw [relative_eq h, components_joinAll _ h]
  rfl

theorem join_relative (base : String) (hn : names ≠ []) (h : ∀ name ∈ names, Plain name) :
    join base (relative names) = joinAll base names := by
  rw [relative_eq h]
  induction names using List.reverseRecOn with
  | nil => exact absurd rfl hn
  | append_singleton front name ih =>
    have hfront : ∀ name ∈ front, Plain name := fun n hn => h n (by simp [hn])
    rw [joinAll_concat, joinAll_concat]
    by_cases hne : front = []
    · rw [hne, joinAll_nil, joinAll_nil, join_empty]
    · obtain ⟨hempty, ha, hs⟩ := joinAll_empty hne hfront
      rw [join_join (h name (by simp)) hempty ha hs, ih hne hfront]

/-! ## Order -/

/-- The first digit in which a smaller number differs is smaller. -/
theorem digits_lt {m n : Nat} (h : m < n) : m / 262144 < n / 262144 ∨ m / 262144 = n / 262144 ∧
    (m / 4096 % 64 < n / 4096 % 64 ∨ m / 4096 % 64 = n / 4096 % 64 ∧
      (m / 64 % 64 < n / 64 % 64 ∨ m / 64 % 64 = n / 64 % 64 ∧ m % 64 < n % 64)) := by
  have hdigits (k : Nat) :
      k = k / 262144 * 262144 + k / 4096 % 64 * 4096 + k / 64 % 64 * 64 + k % 64 := by
    omega
  have hlt (k : Nat) : k % 64 < 64 := Nat.mod_lt _ (by decide)
  rw [hdigits m, hdigits n] at h
  have := hlt (m / 4096); have := hlt (m / 64); have := hlt m
  have := hlt (n / 4096); have := hlt (n / 64); have := hlt n
  generalize m / 4096 % 64 = b at *
  generalize m / 64 % 64 = c at *
  generalize m % 64 = d at *
  generalize m / 262144 = a at *
  generalize n / 4096 % 64 = b' at *
  generalize n / 64 % 64 = c' at *
  generalize n % 64 = d' at *
  generalize n / 262144 = a' at *
  omega

/-- Characters in increasing order have bytes in increasing order, whatever follows. -/
theorem utf8EncodeChar_lt {c d : Char} (h : c < d) (after after' : List UInt8) :
    String.utf8EncodeChar c ++ after < String.utf8EncodeChar d ++ after' := by
  have hlt : c.val.toNat < d.val.toNat := h
  have hd : d.val.toNat < 1114112 := by
    have := d.valid
    unfold UInt32.isValidChar Nat.isValidChar at this
    omega
  unfold String.utf8EncodeChar
  generalize c.val.toNat = m at *
  generalize d.val.toNat = n at *
  have hbytes (a b : Nat) (as bs : List UInt8) (ha : a < 256) (hb : b < 256) :
      UInt8.ofNat a :: as < UInt8.ofNat b :: bs ↔ a < b ∨ a = b ∧ as < bs := by
    rw [List.cons_lt_cons_iff, UInt8.lt_iff_toNat_lt, ← UInt8.toNat_inj, UInt8.toNat_ofNat',
      UInt8.toNat_ofNat', Nat.mod_eq_of_lt ha, Nat.mod_eq_of_lt hb]
  have hdigits := digits_lt hlt
  have hm : m / 262144 % 8 = m / 262144 := by omega
  have hn : n / 262144 % 8 = n / 262144 := by omega
  simp only
  split_ifs <;> simp (disch := omega) only [List.cons_append, hbytes] <;> omega

/-- **Names are ordered by their bytes.** -/
theorem bytes_lt_bytes {a b : String} (h : a < b) : bytes a < bytes b := by
  rw [String.lt_iff] at h
  unfold bytes
  generalize a.toList = as at *
  generalize b.toList = bs at *
  induction h with
  | @nil c cs =>
    rw [List.flatMap_cons]
    unfold String.utf8EncodeChar
    simp only
    split_ifs <;> exact .nil
  | cons _ ih => exact List.append_left_lt ih
  | rel hlt => exact utf8EncodeChar_lt hlt _ _

end Views.Files
