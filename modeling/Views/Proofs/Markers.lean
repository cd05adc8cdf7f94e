import Views.Markers
import Views.Proofs.Ascii

/-!
# What the search for markers finds

`Markers.Spells` is the grammar of a marker, told apart from how a marker is read. Reading finds a
marker where the grammar has one (`marker?_of_spells`) and nowhere else (`spells_of_marker?`). A
brace that opens stands in a marker only at its start, so no marker starts inside of another one
(`not_opens_inside`), and a search that goes on behind each marker misses none (`exists_finds`).
From this follows what the two searches of a template text give (`search_exact`).
-/

set_option autoImplicit false

namespace Views.Markers

open Text

/-! ## The grammar -/

/-- The text of a marker. -/
inductive Spells (opening name : List Char) : List Char → Prop
  | mk (blanks trailing : List Char) (blanks_ne : blanks ≠ [])
      (blanks_blank : ∀ c ∈ blanks, isBlank c = true) (name_ne : name ≠ [])
      (name_chars : ∀ c ∈ name, isNameChar c = true)
      (trailing_blank : ∀ c ∈ trailing, isBlank c = true) :
      Spells opening name (opening ++ (blanks ++ (name ++ (trailing ++ closing))))

/-- A marker of a name starts at some place of a text. -/
def MarkedAt (opening s : List Char) (i : Nat) (name : List Char) : Prop :=
  ∃ m, Spells opening name m ∧ m <+: s.drop i

/-! ## Characters -/

theorem toNat_lt_of_isNameChar {c : Char} (h : isNameChar c = true) : c.toNat < 128 := by
  simp only [isNameChar, Bool.or_eq_true, beq_iff_eq] at h
  rcases h with (((h | rfl) | rfl) | rfl) | rfl
  · exact Ascii.toNat_lt_of_isAlphanum h
  all_goals decide

theorem not_isBlank_of_isNameChar {c : Char} (h : isNameChar c = true) : isBlank c = false :=
  Ascii.forall_ascii (p := fun c => isNameChar c = true → isBlank c = false) (by decide +kernel)
    (toNat_lt_of_isNameChar h) h

/-! ## Reading a marker -/

theorem dropWord?_append (word s : List Char) : dropWord? word (word ++ s) = some s := by
  induction word with
  | nil => rfl
  | cons w word ih => simpa [dropWord?] using ih

/-- A run of characters of one kind ends where another kind begins. -/
theorem span_append {p : Char → Bool} {run s : List Char} (hrun : ∀ c ∈ run, p c = true)
    (hs : s.head?.any p = false) :
    (run ++ s).takeWhile p = run ∧ (run ++ s).dropWhile p = s := by
  have hnil : s.takeWhile p = [] ∧ s.dropWhile p = s := by
    cases s with
    | nil => exact ⟨rfl, rfl⟩
    | cons c s =>
      have hc : p c = false := by simpa using hs
      simp [hc]
  rw [List.takeWhile_append_of_pos hrun, List.dropWhile_append_of_pos hrun, hnil.1, hnil.2]
  exact ⟨List.append_nil _, rfl⟩

theorem marker?_of_spells {opening name m : List Char} (h : Spells opening name m)
    (rest : List Char) : marker? opening (m ++ rest) = some (name, rest) := by
  obtain ⟨blanks, trailing, hb, hblank, hn, hname, htrailing⟩ := h
  obtain ⟨b, blanks', rfl⟩ := List.exists_cons_of_ne_nil hb
  obtain ⟨n, name', rfl⟩ := List.exists_cons_of_ne_nil hn
  have hn' := hname n List.mem_cons_self
  have hafter : (trailing ++ (closing ++ rest)).head?.any isNameChar = false := by
    cases trailing with
    | nil => rfl
    | cons c trailing =>
      have hc := htrailing c List.mem_cons_self
      cases hcn : isNameChar c with
      | false => simpa using hcn
      | true => rw [not_isBlank_of_isNameChar hcn] at hc; cases hc
  have hblanks := span_append (s := n :: name' ++ (trailing ++ (closing ++ rest))) hblank
    (by simpa using not_isBlank_of_isNameChar hn')
  have hnames := span_append hname hafter
  have htrails := span_append (s := closing ++ rest) htrailing rfl
  have hhead : (b :: blanks' ++ (n :: name' ++ (trailing ++ (closing ++ rest)))).head?.any
      isBlank = true := by
    simpa using hblank b List.mem_cons_self
  simp only [marker?, List.append_assoc, dropWord?_append, hblanks.2, hnames.1, hnames.2,
    htrails.2, hhead]
  simp

theorem spells_of_marker? {opening s name rest : List Char}
    (h : marker? opening s = some (name, rest)) : ∃ m, Spells opening name m ∧ s = m ++ rest := by
  unfold marker? at h
  split at h
  · cases h
  rename_i after ha
  simp only at h
  split at h
  case isFalse => cases h
  rename_i hfound
  obtain ⟨r, hr, heq⟩ := Option.map_eq_some_iff.1 h
  obtain ⟨hname, rfl⟩ := Prod.mk.injEq .. ▸ heq
  have hs := dropWord?_eq_some ha
  have hclosing := dropWord?_eq_some hr
  obtain ⟨hhead, hne⟩ := hfound
  have hall (p : Char → Bool) (l : List Char) : ∀ c ∈ l.takeWhile p, p c = true :=
    fun c hc => List.all_eq_true.1 List.all_takeWhile c hc
  have hblanks : after.takeWhile isBlank ≠ [] := by
    cases after with
    | nil => simp at hhead
    | cons c after =>
      have hc : isBlank c = true := by simpa using hhead
      simp [hc]
  subst hname
  refine ⟨_, .mk (after.takeWhile isBlank)
    (((after.dropWhile isBlank).dropWhile isNameChar).takeWhile isBlank) hblanks (hall _ _) hne
    (hall _ _) (hall _ _), ?_⟩
  calc s = opening ++ after := hs
    _ = opening ++ (after.takeWhile isBlank ++ ((after.dropWhile isBlank).takeWhile isNameChar ++
          (((after.dropWhile isBlank).dropWhile isNameChar).takeWhile isBlank ++
            (closing ++ r)))) := by
      rw [← hclosing, List.takeWhile_append_dropWhile, List.takeWhile_append_dropWhile,
        List.takeWhile_append_dropWhile]
    _ = _ := by simp only [List.append_assoc]

theorem eq_of_spells {opening name name' m m' s : List Char} (h : Spells opening name m)
    (h' : Spells opening name' m') (hm : m <+: s) (hm' : m' <+: s) : name = name' := by
  obtain ⟨rest, rfl⟩ := hm
  obtain ⟨rest', hs⟩ := hm'
  have hfound := hs ▸ marker?_of_spells h' rest'
  rw [marker?_of_spells h rest] at hfound
  exact congrArg Prod.fst (Option.some.inj hfound)

/-! ## Markers do not overlap -/

/-- An opening of two braces and a sign. -/
def Opens (opening : List Char) : Prop := ∃ sign, opening = '{' :: '{' :: sign ∧ '{' ∉ sign

theorem opens_layoutOpening : Opens layoutOpening := ⟨['!', '<'], rfl, by decide⟩

theorem opens_partialOpening : Opens partialOpening := ⟨['>'], rfl, by decide⟩

theorem Spells.braces {opening name m : List Char} (ho : Opens opening)
    (h : Spells opening name m) : ∃ body, m = '{' :: '{' :: body ∧ '{' ∉ body ∧ body ≠ [] := by
  obtain ⟨sign, rfl, hsign⟩ := ho
  obtain ⟨blanks, trailing, -, hblank, -, hname, htrailing⟩ := h
  have hnot {p : Char → Bool} {l : List Char} (hl : ∀ c ∈ l, p c = true) (hp : p '{' = false) :
      '{' ∉ l := by
    intro hm
    have := hl _ hm
    rw [hp] at this
    cases this
  refine ⟨sign ++ (blanks ++ (name ++ (trailing ++ closing))), rfl, ?_, by simp [closing]⟩
  have hb := hnot hblank (by decide)
  have hn := hnot hname (by decide)
  have ht := hnot htrailing (by decide)
  simp [hsign, hb, hn, ht, closing]

/-- **No marker starts inside of a marker.** -/
theorem not_opens_inside {opening name m name' m' : List Char} (ho : Opens opening)
    (h : Spells opening name m) (h' : Spells opening name' m') (rest : List Char) {i : Nat}
    (hi : 0 < i) (hm : i < m.length) : ¬ m' <+: (m ++ rest).drop i := by
  obtain ⟨body, rfl, hbody, hne⟩ := h.braces ho
  obtain ⟨body', rfl, -, -⟩ := h'.braces ho
  rintro ⟨rest', hrest⟩
  match i, hi, hm with
  | 1, _, _ =>
    obtain ⟨c, body, rfl⟩ := List.exists_cons_of_ne_nil hne
    simp only [List.cons_append, List.drop_succ_cons, List.drop_zero, List.cons.injEq] at hrest
    exact hbody (hrest.2.1 ▸ List.mem_cons_self)
  | k + 2, _, hk =>
    have hk : k < body.length := by simpa using hk
    simp only [List.cons_append, List.drop_succ_cons] at hrest
    rw [List.drop_append_of_le_length (by omega), List.drop_eq_getElem_cons hk] at hrest
    have hc : '{' = body[k] := (List.cons.inj hrest).1
    exact hbody (hc ▸ List.getElem_mem hk)

/-! ## The search -/

/-- The names that a search finds, with their places, are all markers of the text in order. -/
structure Finds (opening s : List Char) (found : List (Nat × List Char)) : Prop where
  eq : names opening s = found.map Prod.snd
  ascending : found.Pairwise fun a b => a.1 < b.1
  exact : ∀ i name, (i, name) ∈ found ↔ MarkedAt opening s i name

theorem mem_shift {found : List (Nat × List Char)} {k i : Nat} {name : List Char} :
    (i, name) ∈ found.map (fun p => (p.1 + k, p.2)) ↔ k ≤ i ∧ (i - k, name) ∈ found := by
  simp only [List.mem_map, Prod.exists, Prod.mk.injEq]
  constructor
  · rintro ⟨j, n, hm, rfl, rfl⟩
    exact ⟨by omega, by rwa [Nat.add_sub_cancel]⟩
  · rintro ⟨hk, hm⟩
    exact ⟨i - k, name, hm, by omega, rfl⟩

theorem ascending_shift {found : List (Nat × List Char)}
    (h : found.Pairwise fun a b => a.1 < b.1) (k : Nat) :
    (found.map fun p => (p.1 + k, p.2)).Pairwise fun a b => a.1 < b.1 :=
  List.pairwise_map.2 (h.imp fun hab => Nat.add_lt_add_right hab k)

/-- **A search misses no marker.** -/
theorem exists_finds {opening : List Char} (ho : Opens opening) (s : List Char) :
    ∃ found, Finds opening s found := by
  induction s using names.induct opening with
  | case1 =>
    refine ⟨[], by rw [names]; rfl, .nil, fun i name => ⟨fun h => (List.not_mem_nil h).elim, ?_⟩⟩
    rintro ⟨m, hm, hprefix⟩
    obtain ⟨body, rfl, -⟩ := hm.braces ho
    simp at hprefix
  | case2 c rest name after hfound ih =>
    obtain ⟨found, hnames, hascending, hexact⟩ := ih
    obtain ⟨m, hm, hs⟩ := spells_of_marker? hfound
    refine ⟨(0, name) :: found.map fun p => (p.1 + m.length, p.2), ?_, ?_, fun i name' => ?_⟩
    · rw [names, hfound]
      show name :: names opening after = _
      rw [hnames, List.map_cons, List.map_map]
      rfl
    · refine List.pairwise_cons.2 ⟨fun p hp => ?_, ascending_shift hascending _⟩
      obtain ⟨body, hbody, -⟩ := hm.braces ho
      have hlength : m.length ≤ p.1 := (mem_shift.1 hp).1
      rw [hbody] at hlength
      exact Nat.lt_of_lt_of_le (Nat.succ_pos _) hlength
    · rw [List.mem_cons, mem_shift, hexact, Prod.mk.injEq, MarkedAt, MarkedAt, hs]
      constructor
      · rintro (⟨rfl, rfl⟩ | ⟨hi, m', hm', hprefix⟩)
        · exact ⟨m, hm, List.prefix_append _ _⟩
        · refine ⟨m', hm', ?_⟩
          rwa [List.drop_append, List.drop_of_length_le hi, List.nil_append]
      · rintro ⟨m', hm', hprefix⟩
        by_cases hzero : i = 0
        · subst hzero
          exact .inl ⟨rfl, eq_of_spells hm' hm hprefix (List.prefix_append _ _)⟩
        by_cases hi : i < m.length
        · exact absurd hprefix (not_opens_inside ho hm hm' after (by omega) hi)
        · have hi : m.length ≤ i := by omega
          rw [List.drop_append, List.drop_of_length_le hi, List.nil_append] at hprefix
          exact .inr ⟨hi, m', hm', hprefix⟩
  | case3 c rest hnone ih =>
    obtain ⟨found, hnames, hascending, hexact⟩ := ih
    refine ⟨found.map fun p => (p.1 + 1, p.2), ?_, ascending_shift hascending _,
      fun i name => ?_⟩
    · rw [names, hnone]
      show names opening rest = _
      rw [hnames, List.map_map]
      rfl
    · rw [mem_shift, hexact]
      cases i with
      | zero =>
        refine ⟨fun h => absurd h.1 (by omega), ?_⟩
        rintro ⟨m, hm, after, hs⟩
        rw [List.drop_zero] at hs
        rw [← hs, marker?_of_spells hm] at hnone
        cases hnone
      | succ i => simp [MarkedAt]

/-! ## The first of each name -/

/-- The entries of a list without repetition, each at the place of the first. -/
structure Firsts (all firsts : List String) : Prop where
  nodup : firsts.Nodup
  mem : ∀ name, name ∈ firsts ↔ name ∈ all
  ordered : firsts.Pairwise fun n m => ∃ before after, all = before ++ n :: after ∧
    m ∉ before ∧ m ≠ n

theorem Firsts.snoc {all firsts : List String} (h : Firsts all firsts) (name : String) :
    Firsts (all ++ [name]) (if firsts.contains name then firsts else firsts ++ [name]) := by
  have hordered : firsts.Pairwise fun n m => ∃ before after,
      all ++ [name] = before ++ n :: after ∧ m ∉ before ∧ m ≠ n :=
    h.ordered.imp fun ⟨before, after, heq, hm⟩ => ⟨before, after ++ [name], by simp [heq], hm⟩
  by_cases hseen : name ∈ firsts
  · rw [if_pos (List.contains_iff_mem.2 hseen)]
    refine ⟨h.nodup, fun n => ?_, hordered⟩
    rw [h.mem, List.mem_append, List.mem_singleton]
    exact ⟨.inl, fun hn => hn.elim id fun hn => hn ▸ (h.mem name).1 hseen⟩
  · rw [if_neg (mt List.contains_iff_mem.1 hseen)]
    have hall : name ∉ all := mt (h.mem name).2 hseen
    refine ⟨?_, fun n => ?_, ?_⟩
    · exact List.nodup_append.2 ⟨h.nodup, by simp, fun n hn m hm => by
        rw [List.mem_singleton.1 hm]
        exact fun he => hseen (he ▸ hn)⟩
    · rw [List.mem_append, List.mem_append, h.mem]
    · refine List.pairwise_append.2 ⟨hordered, by simp, fun n hn m hm => ?_⟩
      rw [List.mem_singleton.1 hm]
      obtain ⟨before, after, rfl⟩ := List.append_of_mem ((h.mem n).1 hn)
      simp only [List.mem_append, List.mem_cons, not_or] at hall
      exact ⟨before, after ++ [name], by simp, hall.1, hall.2.1⟩

theorem firsts_foldl {all firsts : List String} (h : Firsts all firsts)
    (names : List (List Char)) : Firsts (all ++ names.map String.ofList)
      (names.foldl (fun seen name =>
        let name := String.ofList name
        if seen.contains name then seen else seen ++ [name]) firsts) := by
  induction names generalizing all firsts with
  | nil => simpa using h
  | cons name names ih =>
    have hstep := ih (h.snoc (String.ofList name))
    rwa [List.append_assoc] at hstep

theorem firsts_partialNames (text : String) :
    Firsts ((names partialOpening text.toList).map String.ofList) (partialNames text) := by
  have hnone : Firsts [] [] := ⟨.nil, fun _ => Iff.rfl, .nil⟩
  exact firsts_foldl hnone _

/-! ## The searches of a template text -/

/-- What a search finds, as texts. -/
def texts (found : List (Nat × List Char)) : List String := found.map fun p => String.ofList p.2

theorem Finds.map_ofList {opening s : List Char} {found : List (Nat × List Char)}
    (h : Finds opening s found) : (names opening s).map String.ofList = texts found := by
  rw [h.eq, List.map_map]
  rfl

theorem Finds.mem_texts {opening s : List Char} {found : List (Nat × List Char)}
    (h : Finds opening s found) (name : String) :
    name ∈ texts found ↔ ∃ i, MarkedAt opening s i name.toList := by
  simp only [texts, List.mem_map, Prod.exists]
  constructor
  · rintro ⟨i, n, hm, rfl⟩
    exact ⟨i, by rw [String.toList_ofList]; exact (h.exact i n).1 hm⟩
  · rintro ⟨i, hi⟩
    exact ⟨i, name.toList, (h.exact i _).2 hi, String.ofList_toList⟩

/-- A name that a search finds before any marker of another one has a place before these. -/
theorem Finds.lt_of_before {opening s : List Char} {found : List (Nat × List Char)}
    (h : Finds opening s found) {n m : String} {before after : List String}
    (heq : texts found = before ++ n :: after) (hbefore : m ∉ before) (hne : m ≠ n) :
    ∃ i, MarkedAt opening s i n.toList ∧ ∀ j, MarkedAt opening s j m.toList → i < j := by
  obtain ⟨front, back, rfl, hfront, hback⟩ := List.map_eq_append_iff.1 heq
  obtain ⟨p, back, rfl, rfl, -⟩ := List.map_eq_cons_iff.1 hback
  obtain ⟨i, name⟩ := p
  refine ⟨i, ?_, fun j hj => ?_⟩
  · rw [String.toList_ofList]
    exact (h.exact i name).1 (by simp)
  · rcases List.mem_append.1 ((h.exact j _).2 hj) with hm | hm
    · refine absurd ?_ hbefore
      rw [← hfront]
      exact List.mem_map.2 ⟨_, hm, String.ofList_toList⟩
    · rcases List.mem_cons.1 hm with hm | hm
      · refine absurd ?_ hne
        rw [← (Prod.mk.inj hm).2, String.ofList_toList]
      · exact (List.pairwise_cons.1 (List.pairwise_append.1 h.ascending).2.1).1 _ hm

theorem Finds.layoutName?_eq_some_iff {text : String} {found : List (Nat × List Char)}
    (h : Finds layoutOpening text.toList found) (name : String) :
    layoutName? text = some name ↔ ∃ i, MarkedAt layoutOpening text.toList i name.toList ∧
      ∀ j n, MarkedAt layoutOpening text.toList j n → i ≤ j := by
  rw [layoutName?, h.eq]
  cases found with
  | nil =>
    refine ⟨fun hn => (by cases hn), fun ⟨i, hi, _⟩ => ?_⟩
    exact absurd ((h.exact i _).2 hi) List.not_mem_nil
  | cons p found =>
    obtain ⟨i, first⟩ := p
    have hfirst : MarkedAt layoutOpening text.toList i first :=
      (h.exact i first).1 List.mem_cons_self
    have hleast : ∀ j n, MarkedAt layoutOpening text.toList j n → i ≤ j := by
      intro j n hj
      rcases List.mem_cons.1 ((h.exact j n).2 hj) with hm | hm
      · exact Nat.le_of_eq (Prod.mk.inj hm).1.symm
      · exact Nat.le_of_lt ((List.pairwise_cons.1 h.ascending).1 _ hm)
    simp only [List.map_cons, List.head?_cons, Option.map_some, Option.some.injEq]
    constructor
    · rintro rfl
      exact ⟨i, by rwa [String.toList_ofList], hleast⟩
    · rintro ⟨j, ⟨m, hm, hprefix⟩, hj⟩
      obtain rfl : i = j := Nat.le_antisymm (hleast j _ ⟨m, hm, hprefix⟩) (hj i first hfirst)
      obtain ⟨m', hm', hprefix'⟩ := hfirst
      rw [eq_of_spells hm' hm hprefix' hprefix, String.ofList_toList]

/-- **What the searches of a template text find.** The names of partials are those of the partial
markers, each once, in the order of their first markers. The name of the layout is that of the first
layout marker, if there is one. A search that goes on behind each marker finds all of them. -/
theorem search_exact (text : String) :
    ((partialNames text).Nodup ∧
      (∀ name, name ∈ partialNames text ↔
        ∃ i, MarkedAt partialOpening text.toList i name.toList) ∧
      (partialNames text).Pairwise fun n m =>
        ∃ i, MarkedAt partialOpening text.toList i n.toList ∧
          ∀ j, MarkedAt partialOpening text.toList j m.toList → i < j) ∧
    ((∀ name, layoutName? text = some name ↔
        ∃ i, MarkedAt layoutOpening text.toList i name.toList ∧
          ∀ j n, MarkedAt layoutOpening text.toList j n → i ≤ j) ∧
      (layoutName? text = none ↔ ∀ i n, ¬ MarkedAt layoutOpening text.toList i n)) ∧
    ∀ opening, opening = layoutOpening ∨ opening = partialOpening →
      ∃ found, Finds opening text.toList found := by
  obtain ⟨partials, hpartials⟩ := exists_finds opens_partialOpening text.toList
  obtain ⟨layouts, hlayouts⟩ := exists_finds opens_layoutOpening text.toList
  have hfirsts := firsts_partialNames text
  rw [hpartials.map_ofList] at hfirsts
  refine ⟨⟨hfirsts.nodup, fun name => ?_, ?_⟩, ⟨fun name => ?_, ?_⟩, ?_⟩
  · rw [hfirsts.mem, hpartials.mem_texts]
  · exact hfirsts.ordered.imp fun ⟨_, _, heq, hbefore, hne⟩ =>
      hpartials.lt_of_before heq hbefore hne
  · exact hlayouts.layoutName?_eq_some_iff name
  · rw [layoutName?, hlayouts.eq, Option.map_eq_none_iff, List.head?_eq_none_iff,
      List.map_eq_nil_iff]
    constructor
    · rintro rfl i n hi
      exact List.not_mem_nil ((hlayouts.exact i n).2 hi)
    · intro hnone
      exact List.eq_nil_iff_forall_not_mem.2 fun p hp => hnone p.1 p.2 ((hlayouts.exact _ _).1 hp)
  · rintro opening (rfl | rfl)
    · exact ⟨layouts, hlayouts⟩
    · exact ⟨partials, hpartials⟩

end Views.Markers
