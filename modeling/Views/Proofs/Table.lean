import Mathlib.Data.List.Forall2
import Views.Table

/-!
# Tables stored over tables

What a look-up finds in a table with other entries stored over it (`Table.union`): an entry of the
upper table if its key is there, else what was below (`get?_union_cases`). Of two upper entries with
one key the last counts (`get?_union_of_last`), so one that is anywhere among them is found for
certain only if the keys determine the entries (`get?_union_of_unique`). They do in a table that is
in order, as those are that the operations on tables make (`Ordered`); there a look-up is one in the
upper table first (`get?_union`). If all keys differ, the union has the entries of both tables
(`union_perm`).
-/

set_option autoImplicit false

namespace Views.Table

variable {α : Type}

/-- Entries that are related pairwise, under one key each. -/
theorem keys_eq_of_forall₂ {β : Type} {R : α → β → Prop} {s : Table α} {t : Table β}
    (h : List.Forall₂ (fun x y => x.1 = y.1 ∧ R x.2 y.2) s t) : s.keys = t.keys := by
  induction h with
  | nil => rfl
  | cons hr _ ih => exact List.cons_eq_cons.2 ⟨hr.1, ih⟩

/-- The entries after an insertion are the one inserted and some of those before. -/
theorem mem_insert {t : Table α} {key : String} {value : α} {entry : String × α}
    (h : entry ∈ t.insert key value) : entry = (key, value) ∨ entry ∈ t := by
  induction t with
  | nil => exact .inl (List.mem_singleton.1 h)
  | cons first rest ih =>
    obtain ⟨k, v⟩ := first
    rw [insert] at h
    split at h
    · rcases List.mem_cons.1 h with h | h
      · exact .inl h
      · exact .inr (List.mem_cons_of_mem _ h)
    · split at h
      · exact List.mem_cons.1 h
      · rcases List.mem_cons.1 h with h | h
        · exact .inr (h ▸ List.mem_cons_self)
        · exact (ih h).imp_right (List.mem_cons_of_mem _)

theorem mem_keys_of_get? {t : Table α} {key : String} {v : α}
    (h : t.get? key = some v) : key ∈ t.keys := by
  induction t with
  | nil => cases h
  | cons entry rest ih =>
    obtain ⟨k, v'⟩ := entry
    rw [get?] at h
    split at h
    · rename_i hk
      exact List.mem_cons.2 (.inl hk.symm)
    · exact List.mem_cons_of_mem _ (ih h)

@[simp] theorem union_nil (t : Table α) : union t [] = t := rfl

@[simp] theorem union_cons (t : Table α) (entry : String × α) (upper : Table α) :
    union t (entry :: upper) = union (t.insert entry.1 entry.2) upper := rfl

/-- An entry of the union is an entry of one of the tables. -/
theorem get?_union_cases (t upper : Table α) (key : String) :
    ((∀ v, (key, v) ∉ upper) ∧ (union t upper).get? key = t.get? key) ∨
      ∃ v, (key, v) ∈ upper ∧ (union t upper).get? key = some v := by
  induction upper generalizing t with
  | nil => exact .inl ⟨fun v => List.not_mem_nil, rfl⟩
  | cons entry upper ih =>
    obtain ⟨k, v⟩ := entry
    rw [union_cons]
    rcases ih (t.insert k v) with ⟨hn, he⟩ | ⟨u, hu, he⟩
    · by_cases hk : k = key
      · subst hk
        exact .inr ⟨v, List.mem_cons_self, by rw [he, get?_insert_self]⟩
      · refine .inl ⟨fun u hu => ?_, by rw [he, get?_insert_ne _ _ hk]⟩
        rcases List.mem_cons.1 hu with heq | hu
        · exact hk (congrArg Prod.fst heq).symm
        · exact hn u hu
    · exact .inr ⟨u, List.mem_cons_of_mem _ hu, he⟩

theorem get?_union_of_unique {t upper : Table α} {key : String} {v : α} (h : (key, v) ∈ upper)
    (unique : ∀ u, (key, u) ∈ upper → u = v) : (union t upper).get? key = some v := by
  rcases get?_union_cases t upper key with ⟨hn, -⟩ | ⟨u, hu, he⟩
  · exact absurd h (hn v)
  · rw [he, unique u hu]

theorem union_append (t a b : Table α) : union t (a ++ b) = union (union t a) b :=
  List.foldl_append

theorem get?_union_of_notMem {t upper : Table α} {key : String} (h : key ∉ upper.keys) :
    (union t upper).get? key = t.get? key := by
  rcases get?_union_cases t upper key with ⟨-, he⟩ | ⟨u, hu, -⟩
  · exact he
  · exact absurd (List.mem_map.2 ⟨(key, u), hu, rfl⟩) h

/-- Of the upper entries with one key the last counts. -/
theorem get?_union_of_last {t before after : Table α} {key : String} {v : α}
    (h : key ∉ after.keys) : (union t (before ++ (key, v) :: after)).get? key = some v := by
  rw [union_append, union_cons, get?_union_of_notMem h, get?_insert_self]

theorem insert_perm {t : Table α} {key : String} (h : key ∉ t.keys) (value : α) :
    (t.insert key value).Perm ((key, value) :: t) := by
  induction t with
  | nil => exact .refl _
  | cons entry rest ih =>
    obtain ⟨k, v⟩ := entry
    obtain ⟨hk, hrest⟩ := not_or.1 (mt List.mem_cons.2 h)
    rw [insert, if_neg hk]
    split
    · exact .refl _
    · exact ((ih hrest).cons _).trans (.swap ..)

/-- Entries with different keys are all in the union. -/
theorem union_perm {t upper : Table α} (h : (t ++ upper).keys.Nodup) :
    (union t upper).Perm (t ++ upper) := by
  induction upper generalizing t with
  | nil => rw [union_nil, List.append_nil]
  | cons entry upper ih =>
    have hmid : (t ++ entry :: upper).Perm (entry :: t ++ upper) := List.perm_middle
    obtain ⟨hnew, hrest⟩ := List.nodup_cons.1 ((hmid.map Prod.fst).nodup_iff.1 h)
    have hinsert : (t.insert entry.1 entry.2).Perm (entry :: t) :=
      insert_perm (fun hm => hnew (List.map_append ▸ List.mem_append_left _ hm)) entry.2
    have hperm := hinsert.append_right upper
    exact (ih ((hperm.map Prod.fst).nodup_iff.2 (List.nodup_cons.2 ⟨hnew, hrest⟩))).trans
      (hperm.trans hmid.symm)

theorem ofList_perm {entries : List (String × α)} (h : (entries.map Prod.fst).Nodup) :
    (ofList entries).Perm entries := union_perm (t := []) h

/-! ## Tables in order -/

/-- The keys of a table increase. -/
def Ordered (t : Table α) : Prop := t.Pairwise fun entry entry' => entry.1 < entry'.1

instance (t : Table α) : Decidable t.Ordered :=
  inferInstanceAs (Decidable (List.Pairwise _ t))

theorem Ordered.insert {t : Table α} (h : t.Ordered) (key : String) (value : α) :
    (t.insert key value).Ordered := by
  induction t with
  | nil => exact List.pairwise_singleton _ _
  | cons entry rest ih =>
    obtain ⟨k, v⟩ := entry
    obtain ⟨hk, hrest⟩ := List.pairwise_cons.1 h
    rw [Table.insert]
    split
    · rename_i heq
      exact List.pairwise_cons.2 ⟨fun entry he => heq ▸ hk entry he, hrest⟩
    · rename_i hne
      split
      · rename_i hlt
        refine List.pairwise_cons.2 ⟨fun entry he => ?_, h⟩
        rcases List.mem_cons.1 he with rfl | he
        · exact hlt
        · exact String.lt_trans hlt (hk entry he)
      · rename_i hge
        have hgt : k < key := Std.lt_of_le_of_ne (String.not_lt.1 hge) fun heq => hne heq.symm
        refine List.pairwise_cons.2 ⟨fun entry he => ?_, ih hrest⟩
        rcases mem_insert he with rfl | he
        · exact hgt
        · exact hk entry he

theorem Ordered.union {t : Table α} (h : t.Ordered) (upper : Table α) :
    (union t upper).Ordered := by
  induction upper generalizing t with
  | nil => exact h
  | cons entry upper ih => exact ih (h.insert entry.1 entry.2)

theorem ordered_ofList (entries : List (String × α)) : (ofList entries).Ordered :=
  Ordered.union (t := []) List.Pairwise.nil entries

theorem Ordered.nodup_keys {t : Table α} (h : t.Ordered) : t.keys.Nodup := by
  refine List.pairwise_map.2 (List.Pairwise.imp (fun hlt heq => ?_) h)
  rw [heq] at hlt
  exact String.lt_irrefl _ hlt

/-- A table in order is the table of its entries. -/
theorem Ordered.ofList_eq {t : Table α} (h : t.Ordered) : ofList t = t :=
  (ofList_perm h.nodup_keys).eq_of_pairwise
    (fun _ _ _ _ hlt hgt => absurd hgt (String.lt_asymm hlt))
    (ordered_ofList t) h

theorem Ordered.get?_of_mem {t : Table α} (h : t.Ordered) {key : String} {v : α}
    (hm : (key, v) ∈ t) : t.get? key = some v := by
  induction t with
  | nil => cases hm
  | cons entry rest ih =>
    obtain ⟨k, u⟩ := entry
    obtain ⟨hk, hrest⟩ := List.pairwise_cons.1 h
    rcases List.mem_cons.1 hm with heq | hm
    · obtain ⟨rfl, rfl⟩ := Prod.mk.inj heq
      exact if_pos rfl
    · have hne : k ≠ key := fun he => String.lt_irrefl k (he ▸ hk (key, v) hm)
      rw [get?, if_neg hne]
      exact ih hrest hm

theorem mem_of_get? {t : Table α} {key : String} {v : α} (h : t.get? key = some v) :
    (key, v) ∈ t := by
  induction t with
  | nil => cases h
  | cons entry rest ih =>
    obtain ⟨k, u⟩ := entry
    rw [get?] at h
    split at h
    · rename_i hk
      rw [← hk, Option.some.inj h]
      exact List.mem_cons_self
    · exact List.mem_cons_of_mem _ (ih h)

/-- **A look-up in a union** finds the entry of the upper table, or else the one below. -/
theorem get?_union (t : Table α) {upper : Table α} (h : upper.Ordered) (key : String) :
    (union t upper).get? key = (upper.get? key <|> t.get? key) := by
  cases hu : upper.get? key with
  | some v =>
    have hunique (u : α) (hm : (key, u) ∈ upper) : u = v :=
      Option.some.inj ((h.get?_of_mem hm).symm.trans hu)
    exact get?_union_of_unique (mem_of_get? hu) hunique
  | none =>
    rcases get?_union_cases t upper key with ⟨-, he⟩ | ⟨v, hm, -⟩
    · exact he
    · cases hu.symm.trans (h.get?_of_mem hm)

end Views.Table
