import Mathlib
import Views.Files.Walk
import Views.Proofs.Files.Leads

/-!
# What a listing lists

A listing is exact about a part of the tree (`Exact`) if it lists what names of that part lead to,
in order, or fails because of an obstacle there. The listings of files, of directories and of lists
of entries are put together from exact parts, along the walk; the stand of the walk goes with the
names that have led to it (`Stand.Reaches`). Every link leads to a directory that the walk is not
inside of, so the directories bound the links (`listsBehind`). `list_exact` says what this makes of
the listing of a whole directory.
-/

set_option autoImplicit false

namespace Views.Files

/-- The names lead to a file, and the last one has the ending. -/
def Listed (t : FileTree) (root ending : String) (names : List String) : Prop :=
  ∃ above name place text, names = above ++ [name] ∧ Leads t root names place (.file text) ∧
    hasEnding name ending = true

/-- Depth first: where the names differ first, the bytes of the name are smaller. -/
def Before (names names' : List String) : Prop :=
  ∃ above name name' rest rest', names = above ++ name :: rest ∧ names' = above ++ name' :: rest' ∧
    bytes name < bytes name'

/-- A listing of the names in a scope: they are the names that lead to files with the ending, in
their order, if nothing in the scope stops the walk, and an error otherwise. -/
def Exact (t : FileTree) (root ending : String) (scope : List String → Prop) :
    Except ViewError (List String) → Prop
  | .ok paths => ∃ found : List (List String), paths = found.map relative ∧
      found.Pairwise Before ∧ (∀ names, names ∈ found ↔ scope names ∧ Listed t root ending names) ∧
      ∀ names, scope names → ¬ Obstacle t root names
  | .error _ => ∃ names, scope names ∧ Obstacle t root names

variable {t : FileTree} {root ending name : String} {names : List String} {place place' : Place}
  {access : Access} {entries rest : List (String × Entry)} {e : Entry} {s : Stand}

theorem Met.of_listed (h : Listed t root ending names) : Met t root names := by
  obtain ⟨above, name, place, text, rfl, hl, -⟩ := h
  exact of_leads hl (by simp)

theorem Before.ne {names' : List String} (h : Before names names') : names ≠ names' := by
  obtain ⟨above, name, name', rest, rest', rfl, rfl, hlt⟩ := h
  intro heq
  obtain ⟨rfl, -⟩ := List.cons.inj (List.append_cancel_left heq)
  exact Std.lt_irrefl hlt

/-! ## Parts of a listing -/

namespace Exact

theorem error {scope : List String → Prop} {err : ViewError} (hscope : scope names)
    (h : Obstacle t root names) : Exact t root ending scope (.error err) := ⟨names, hscope, h⟩

/-- Nothing is below a file. -/
theorem file {text : Option String} (hl : Leads t root (names ++ [name]) place (.file text))
    (hfree : ¬ Obstacle t root (names ++ [name])) :
    Exact t root ending (names ++ [name] <+: ·)
      (.ok (if hasEnding name ending then [relative (names ++ [name])] else [])) := by
  have hmet {names' : List String} (h : names ++ [name] <+: names') (hm : Met t root names') :
      names' = names ++ [name] := by
    obtain ⟨tail, rfl⟩ := h
    cases tail with
    | nil => rw [List.append_nil]
    | cons x tail =>
      obtain ⟨place', access, entries, child, hdirectory, -⟩ := hm.above
      cases (hl.eq hdirectory).2
  have hlisted : Listed t root ending (names ++ [name]) ↔ hasEnding name ending = true := by
    refine ⟨fun ⟨above, last, _, _, hn, _, hending⟩ => ?_, fun h => ⟨_, _, _, _, rfl, hl, h⟩⟩
    obtain rfl := (List.append_singleton_inj.1 hn).2
    exact hending
  refine ⟨if hasEnding name ending then [names ++ [name]] else [], ?_, ?_, fun names' => ?_,
    fun names' hscope hobstacle => ?_⟩
  · split <;> rfl
  · split <;> simp
  · constructor
    · intro hm
      split at hm
      · rename_i hending
        obtain rfl := List.mem_singleton.1 hm
        exact ⟨List.prefix_rfl, hlisted.2 hending⟩
      · cases hm
    · rintro ⟨hscope, hl'⟩
      obtain rfl := hmet hscope (.of_listed hl')
      rw [if_pos (hlisted.1 hl')]
      exact List.mem_singleton_self _
  · have hne : names' ≠ [] := by
      rintro rfl
      simp at hscope
    exact hfree (hmet hscope (.of_obstacle hobstacle hne) ▸ hobstacle)

/-- What is below a directory is below its entries. -/
theorem directory {listed : Except ViewError (List String)}
    (hl : Leads t root names place (.guarded access entries)) (hfree : ¬ Obstacle t root names)
    (h : Exact t root ending (fun names' => ∃ entry ∈ entries, names ++ [entry.1] <+: names')
      listed) : Exact t root ending (names <+: ·) listed := by
  have hbelow {names' : List String} (hscope : names <+: names') (hne : names' ≠ names)
      (hm : Met t root names') : ∃ entry ∈ entries, names ++ [entry.1] <+: names' := by
    obtain ⟨tail, rfl⟩ := hscope
    cases tail with
    | nil => simp at hne
    | cons x tail =>
      obtain ⟨place', access', entries', child, hdirectory, hget⟩ := hm.above
      cases (hl.eq hdirectory).2
      exact ⟨_, Table.mem_of_get? hget, tail, by simp⟩
  have hself : ¬ Listed t root ending names := by
    rintro ⟨_, _, _, _, -, hfile, -⟩
    cases (hl.eq hfile).2
  have hwiden {names' : List String} (hscope : ∃ entry ∈ entries, names ++ [entry.1] <+: names') :
      names <+: names' := by
    obtain ⟨entry, -, hp⟩ := hscope
    exact (List.prefix_append _ _).trans hp
  cases listed with
  | error err =>
    obtain ⟨names', hscope, hobstacle⟩ := h
    exact ⟨names', hwiden hscope, hobstacle⟩
  | ok paths =>
    obtain ⟨found, hpaths, hsorted, hfound, hclear⟩ := h
    refine ⟨found, hpaths, hsorted, fun names' => ?_, fun names' hscope hobstacle => ?_⟩
    · rw [hfound]
      refine and_congr_left fun hlisted =>
        ⟨hwiden, fun hscope => hbelow hscope ?_ (.of_listed hlisted)⟩
      rintro rfl
      exact hself hlisted
    · by_cases heq : names' = names
      · exact hfree (heq ▸ hobstacle)
      · have hne : names' ≠ [] := by
          rintro rfl
          exact heq (List.prefix_nil.1 hscope).symm
        exact hclear names' (hbelow hscope heq (.of_obstacle hobstacle hne)) hobstacle

/-- The listings of the entries stand one behind the other. -/
theorem cons {here more : Except ViewError (List String)} (hlt : ∀ entry ∈ rest, name < entry.1)
    (hhere : Exact t root ending (names ++ [name] <+: ·) here)
    (hmore : Exact t root ending (fun names' => ∃ entry ∈ rest, names ++ [entry.1] <+: names')
      more) :
    Exact t root ending (fun names' => ∃ entry ∈ (name, e) :: rest, names ++ [entry.1] <+: names')
      (do return (← here) ++ (← more)) := by
  cases here with
  | error err =>
    obtain ⟨names', hscope, hobstacle⟩ := hhere
    exact ⟨names', ⟨_, List.mem_cons_self, hscope⟩, hobstacle⟩
  | ok paths =>
    cases more with
    | error err =>
      obtain ⟨names', ⟨entry, hm, hscope⟩, hobstacle⟩ := hmore
      exact ⟨names', ⟨entry, List.mem_cons_of_mem _ hm, hscope⟩, hobstacle⟩
    | ok paths' =>
      obtain ⟨found, rfl, hsorted, hfound, hclear⟩ := hhere
      obtain ⟨found', rfl, hsorted', hfound', hclear'⟩ := hmore
      refine ⟨found ++ found', List.map_append.symm, ?_, fun names' => ?_, fun names' hscope => ?_⟩
      · refine List.pairwise_append.2 ⟨hsorted, hsorted', fun n hn n' hn' => ?_⟩
        obtain ⟨tail, rfl⟩ := ((hfound n).1 hn).1
        obtain ⟨entry, hm, tail', rfl⟩ := ((hfound' n').1 hn').1
        exact ⟨names, name, entry.1, tail, tail', by simp, by simp, bytes_lt_bytes (hlt entry hm)⟩
      · simp only [List.mem_append, hfound, hfound', List.exists_mem_cons_iff, or_and_right]
      · obtain ⟨entry, hm, hscope⟩ := hscope
        rcases List.mem_cons.1 hm with rfl | hm
        · exact hclear names' hscope
        · exact hclear' names' ⟨entry, hm, hscope⟩

end Exact

/-! ## The walk -/

mutual

/-- The places of the directories in an entry. -/
def Entry.directoryPlaces : Entry → List Place
  | .guarded _ entries => [] :: directoryPlacesOf entries
  | _ => []

/-- The places of the directories in some entries. -/
def directoryPlacesOf : List (String × Entry) → List Place
  | [] => []
  | (name, e) :: rest => e.directoryPlaces.map (name :: ·) ++ directoryPlacesOf rest

end

mutual

theorem Entry.length_directoryPlaces : (e : Entry) → e.directoryPlaces.length = e.directories
  | .file _ => rfl
  | .link _ => rfl
  | .guarded _ entries => by
    rw [Entry.directoryPlaces, Entry.directories, List.length_cons, length_directoryPlacesOf,
      Nat.add_comm]

theorem length_directoryPlacesOf : (entries : List (String × Entry)) →
    (directoryPlacesOf entries).length = directoriesOf entries
  | [] => rfl
  | (name, e) :: rest => by
    rw [directoryPlacesOf, directoriesOf, List.length_append, List.length_map,
      e.length_directoryPlaces, length_directoryPlacesOf]

end

theorem mem_directoryPlacesOf {child : Entry} (h : (name, child) ∈ entries)
    (hp : place ∈ child.directoryPlaces) : name :: place ∈ directoryPlacesOf entries := by
  induction entries with
  | nil => cases h
  | cons entry entries ih =>
    obtain ⟨name', e⟩ := entry
    rw [directoryPlacesOf, List.mem_append]
    rcases List.mem_cons.1 h with h | h
    · cases h
      exact .inl (List.mem_map_of_mem hp)
    · exact .inr (ih h)

theorem Entry.mem_directoryPlaces (h : e.at? place = some (.guarded access entries)) :
    place ∈ e.directoryPlaces := by
  induction place generalizing e with
  | nil =>
    cases h
    rw [directoryPlaces]
    exact List.mem_cons_self
  | cons name place ih =>
    cases e with
    | guarded access' children =>
      obtain ⟨child, hget, hat⟩ := Option.bind_eq_some_iff.1 h
      rw [directoryPlaces]
      exact List.mem_cons_of_mem _ (mem_directoryPlacesOf (Table.mem_of_get? hget) (ih hat))
    | _ => cases h

/-- There are no more places of directories than directories. -/
theorem Entry.card_le_directories (places : Finset Place)
    (h : ∀ place ∈ places, ∃ access entries, e.at? place = some (.guarded access entries)) :
    places.card ≤ e.directories := by
  have hsubset : places ⊆ e.directoryPlaces.toFinset := by
    intro place hp
    obtain ⟨access, entries, hat⟩ := h place hp
    exact List.mem_toFinset.2 (mem_directoryPlaces hat)
  calc places.card ≤ e.directoryPlaces.toFinset.card := Finset.card_le_card hsubset
    _ ≤ e.directoryPlaces.length := List.toFinset_card_le _
    _ = e.directories := e.length_directoryPlaces

/-- The places that a walk is inside of. -/
def Stand.places (s : Stand) : Finset Place := (s.inside.map Ancestor.place).toFinset

/-- The names lead to where the walk stands, and it is inside of the directories on the way. -/
structure Stand.Reaches (t : FileTree) (root : String) (s : Stand) (names : List String)
    (access : Access) (entries : List (String × Entry)) : Prop where
  path : s.path = joinAll root names
  relative : s.relative = Files.relative names
  leads : Leads t root names s.place (.guarded access entries)
  found : t.find true s.path = .ok (s.place, .guarded access entries)
  places : ∀ place, place ∈ s.places ↔ ∃ outer access' entries', outer <+: names ∧
    Leads t root outer place (.guarded access' entries')

theorem Stand.places_down (s : Stand) (name : String) (place : Place) :
    (s.down name place).places = insert place s.places := List.toFinset_cons

namespace Stand.Reaches

theorem down (h : s.Reaches t root names access entries)
    (hname : ∀ n ∈ names ++ [name], Plain n) {access' : Access} {sub : List (String × Entry)}
    (hl : Leads t root (names ++ [name]) place (.guarded access' sub))
    (hfound : t.find true (join s.path name) = .ok (place, .guarded access' sub)) :
    (s.down name place).Reaches t root (names ++ [name]) access' sub where
  path := by rw [joinAll_concat, ← h.path]; rfl
  relative := by
    rw [relative_eq hname, joinAll_concat, ← relative_eq fun n hn => hname n (by simp [hn]),
      ← h.relative]
    rfl
  leads := hl
  found := hfound
  places place' := by
    rw [places_down, Finset.mem_insert, h.places]
    constructor
    · rintro (rfl | ⟨outer, outerAccess, entries', hp, hl'⟩)
      · exact ⟨_, _, _, List.prefix_rfl, hl⟩
      · exact ⟨outer, outerAccess, entries', hp.trans (List.prefix_append _ _), hl'⟩
    · rintro ⟨outer, outerAccess, entries', hp, hl'⟩
      rcases List.prefix_concat_iff.1 hp with rfl | hp
      · exact .inl (hl'.eq hl).1
      · exact .inr ⟨outer, outerAccess, entries', hp, hl'⟩

/-- A walk is inside of no more places than there are directories. -/
theorem card_places_le (h : s.Reaches t root names access entries) :
    s.places.card ≤ t.root.directories := by
  refine t.root.card_le_directories s.places fun place hp => ?_
  obtain ⟨outer, access', entries', -, hl⟩ := (h.places place).1 hp
  exact ⟨access', entries', hl.at?⟩

/-- What is listed of a file is its relative path. -/
theorem file_eq (h : s.Reaches t root names access entries)
    (hname : ∀ n ∈ names ++ [name], Plain n) :
    s.file ending name =
      if hasEnding name ending then [Files.relative (names ++ [name])] else [] := by
  have hjoin : join s.relative name = Files.relative (names ++ [name]) := by
    rw [relative_eq hname, joinAll_concat, ← relative_eq fun n hn => hname n (by simp [hn]),
      ← h.relative]
  rw [Stand.file, hjoin]

end Stand.Reaches

/-- With that many links ahead, directories are listed exactly. -/
def ListsBehind (t : FileTree) (root ending : String) (links : Nat) : Prop :=
  ∀ {s : Stand} {names : List String} {access : Access} {entries : List (String × Entry)},
    s.Reaches t root names access entries → t.root.directories < links + s.places.card →
      Exact t root ending (fun names' => ∃ entry ∈ entries, names ++ [entry.1] <+: names')
        (listBehind t ending links s entries)

variable {links : Nat}

theorem listLink_exact (ht : t.Sound) (hbehind : ListsBehind t root ending links)
    (hs : s.Reaches t root names access entries)
    (hlinks : t.root.directories < links + 1 + s.places.card) {target : String}
    (hget : Table.get? entries name = some (.link target)) :
    Exact t root ending (names ++ [name] <+: ·)
      (listLink t ending (listBehind t ending links) s name) := by
  have hname := hs.leads.plain_concat ht hget
  have hpath : joinAll root (names ++ [name]) = join s.path name := by
    rw [joinAll_concat, hs.path]
  rw [listLink]
  cases hfound : t.find true (join s.path name) with
  | error fault =>
    exact .error List.prefix_rfl (.unfound hs.leads hget nofun (hpath ▸ hfound))
  | ok found =>
    obtain ⟨place', e⟩ := found
    have hl : Leads t root (names ++ [name]) place' e := .down hs.leads hget (hpath ▸ hfound)
    have hfree := not_obstacle_of_find hs.leads hget hl (hpath ▸ hfound)
    cases e with
    | link target' =>
      exact absurd hfound (FileTree.find_join_ne_link (hname name (by simp)) hs.found)
    | file text =>
      simp only [hs.file_eq hname]
      exact .file hl (hfree nofun nofun)
    | guarded access' sub =>
      dsimp only
      cases hreadable : access'.readable with
      | false => exact .error List.prefix_rfl (.unreadable hl hreadable)
      | true =>
        cases hinside : s.inside.find? fun a => a.place == place' with
        | some a =>
          obtain ⟨outer, access'', entries', hp, houter⟩ := (hs.places place').1 (by
            have ha := List.find?_some hinside
            rw [← beq_iff_eq.1 ha]
            exact List.mem_toFinset.2 (List.mem_map_of_mem (List.mem_of_find?_eq_some hinside)))
          cases houter.at?.symm.trans hl.at?
          exact .error List.prefix_rfl (.loop hs.leads hget (hpath ▸ hfound) hp houter)
        | none =>
          have hnew : place' ∉ s.places := by
            intro hm
            obtain ⟨a, ha, rfl⟩ := List.mem_map.1 (List.mem_toFinset.1 hm)
            simpa using List.find?_eq_none.1 hinside a ha
          have hdown := hs.down hname hl hfound
          refine .directory hl (hfree ?_ fun _ outer access'' entries' _ _ hp houter => ?_)
            (hbehind hdown ?_)
          · rintro _ _ ⟨⟩
            exact hreadable
          · exact hnew ((hs.places place').2 ⟨outer, access'', entries', hp, houter⟩)
          · rw [Stand.places_down, Finset.card_insert_of_notMem hnew]
            omega

mutual

theorem listEntry_exact (ht : t.Sound) (hbehind : ListsBehind t root ending links) :
    (e : Entry) → {s : Stand} → {names : List String} → {access : Access} →
    {entries : List (String × Entry)} → {name : String} →
    s.Reaches t root names access entries →
    t.root.directories < links + 1 + s.places.card → Table.get? entries name = some e →
    Exact t root ending (names ++ [name] <+: ·)
      (listEntry t ending (listBehind t ending links) s name e)
  | .link target, s, names, access, entries, name, hs, hlinks, hget => by
    rw [listEntry]
    exact listLink_exact ht hbehind hs hlinks hget
  | .file text, s, names, access, entries, name, hs, hlinks, hget => by
    rw [listEntry, hs.file_eq (hs.leads.plain_concat ht hget)]
    exact .file (.down hs.leads hget rfl) (not_obstacle_file hs.leads hget)
  | .guarded access' sub, s, names, access, entries, name, hs, hlinks, hget => by
    rw [listEntry]
    have hname := hs.leads.plain_concat ht hget
    have hl : Leads t root (names ++ [name]) (s.place ++ [name]) (.guarded access' sub) :=
      .down hs.leads hget rfl
    have hpath : joinAll root (names ++ [name]) = join s.path name := by
      rw [joinAll_concat, hs.path]
    cases hfound : t.find true (join s.path name) with
    | error fault =>
      rw [FileTree.refusal?, hfound]
      exact .error List.prefix_rfl (.unfound hs.leads hget nofun (hpath ▸ hfound))
    | ok found =>
      obtain rfl := FileTree.find_entry_eq (hname name (by simp)) hs.found hget nofun hfound
      rw [FileTree.refusal?, hfound]
      dsimp only
      cases hreadable : access'.readable with
      | false => exact .error List.prefix_rfl (.unreadable hl hreadable)
      | true =>
        have hdown := hs.down hname hl hfound
        have hordered := (ht.root.at? hl.at?).ordered
        refine .directory hl ?_ (listEntries_exact ht hbehind sub hdown ?_ ?_ hordered)
        · refine not_obstacle_of_find hs.leads hget hl (hpath ▸ hfound) ?_ nofun
          rintro _ _ ⟨⟩
          exact hreadable
        · have hle := Finset.card_le_card (Finset.subset_insert (s.place ++ [name]) s.places)
          rw [Stand.places_down]
          omega
        · exact fun entry hm => hordered.get?_of_mem hm

theorem listEntries_exact (ht : t.Sound) (hbehind : ListsBehind t root ending links) :
    (es : List (String × Entry)) → {s : Stand} → {names : List String} → {access : Access} →
    {entries : List (String × Entry)} → s.Reaches t root names access entries →
    t.root.directories < links + 1 + s.places.card →
    (∀ entry ∈ es, Table.get? entries entry.1 = some entry.2) → Table.Ordered es →
    Exact t root ending (fun names' => ∃ entry ∈ es, names ++ [entry.1] <+: names')
      (listEntries t ending (listBehind t ending links) s es)
  | [], s, names, access, entries, hs, hlinks, hes, hordered =>
    ⟨[], rfl, .nil, by simp, by simp⟩
  | (name, e) :: rest, s, names, access, entries, hs, hlinks, hes, hordered => by
    rw [listEntries]
    obtain ⟨hlt, hrest⟩ := List.pairwise_cons.1 hordered
    exact .cons hlt (listEntry_exact ht hbehind e hs hlinks (hes _ List.mem_cons_self))
      (listEntries_exact ht hbehind rest hs hlinks
        (fun entry hm => hes entry (List.mem_cons_of_mem _ hm)) hrest)

end

/-- With as many links ahead as there are directories the walk never runs out of links. -/
theorem listsBehind (ht : t.Sound) (root ending : String) (links : Nat) :
    ListsBehind t root ending links := by
  induction links with
  | zero =>
    intro s names access entries hs hlinks
    have hle := hs.card_places_le
    omega
  | succ links ih =>
    intro s names access entries hs hlinks
    have hordered := (ht.root.at? hs.leads.at?).ordered
    exact listEntries_exact ht ih entries hs hlinks (fun entry hm => hordered.get?_of_mem hm)
      hordered

/-- There is an obstacle at the root itself only if it may not be read. -/
theorem not_obstacle_nil (hl : Leads t root [] place (.guarded access entries))
    (hreadable : access.readable = true) : ¬ Obstacle t root [] := by
  intro h
  generalize hn : ([] : List String) = names at h
  cases h with
  | unreadable leads denied =>
    subst hn
    cases (leads.eq hl).2
    exact Bool.false_ne_true (denied.symm.trans hreadable)
  | unfound => simp at hn
  | loop => simp at hn

/-- The listing of a directory is exact. -/
theorem list_directory_exact (ht : t.Sound) (hdir : t.isDirectory root = true) (ending : String) :
    Exact t root ending (fun _ => True) (t.list root ending) := by
  unfold FileTree.isDirectory at hdir
  split at hdir
  · rename_i place access entries hfound
    have hl : Leads t root [] place (.guarded access entries) := .start hfound
    rw [FileTree.list, hfound]
    dsimp only
    cases hreadable : access.readable with
    | false =>
      have hobstacle : Obstacle t root [] := .unreadable hl hreadable
      rw [if_neg (by simp)]
      split
      · exact .error trivial hobstacle
      · exact .error trivial hobstacle
    | true =>
      have hreaches :
          Stand.Reaches t root ⟨root, root, place, "", [⟨root, place⟩]⟩ [] access entries :=
        ⟨rfl, rfl, hl, hfound, fun place' => by
          simp only [Stand.places, List.map_cons, List.map_nil, List.toFinset_cons,
            List.toFinset_nil, insert_empty_eq, Finset.mem_singleton, List.prefix_nil]
          refine ⟨fun h => ⟨[], access, entries, rfl, h ▸ hl⟩, ?_⟩
          rintro ⟨_, access', entries', rfl, hl'⟩
          exact (hl'.eq hl).1⟩
      have hbehind := listsBehind ht root ending (t.root.directories + 1) hreaches (by omega)
      have hexact := Exact.directory hl (not_obstacle_nil hl hreadable) hbehind
      simp only [List.nil_prefix] at hexact
      exact hexact
  · cases hdir

/-! ## The main result -/

/-- If nothing stops the walk, what it lists is there, unless its path is too long or its directory
may not be searched. -/
theorem isFile_listed (ht : t.Sound) (hroot : root ≠ "") (hfree : ∀ names, ¬ Obstacle t root names)
    (h : Listed t root ending names) : t.isFile (joinAll root names) = true ↔
      (joinAll root names).utf8ByteSize ≤ FileTree.maxPath ∧ Searchable t root names := by
  obtain ⟨above, name, place, text, rfl, hl, -⟩ := h
  obtain ⟨place', access, entries, child, hdirectory, hget, hbehind⟩ := Leads.concat_iff.1 hl
  have hplain := hdirectory.plain_entry ht hget
  have hfind := hdirectory.find ht fun _ _ => hfree _
  have hsearchable : Searchable t root (above ++ [name]) ↔ access.searchable = true := by
    refine ⟨fun ⟨_, _, _, _, _, hn, hl', hsearch⟩ => ?_,
      fun h => ⟨_, _, _, _, _, rfl, hdirectory, h⟩⟩
    obtain ⟨rfl, -⟩ := List.append_singleton_inj.1 hn
    cases (hdirectory.eq hl').2
    exact hsearch
  rw [hsearchable]
  cases child with
  | link target =>
    have hfound : t.find true (joinAll root (above ++ [name])) = .ok (place, .file text) := hbehind
    have hjoin := hfound
    rw [joinAll_concat] at hjoin
    obtain ⟨_, _, _, _, hfind', hsearch, -⟩ :=
      FileTree.find_of_join hplain (joinAll_ne_empty hroot (hdirectory.plain ht)) hjoin
    cases hfind.symm.trans hfind'
    refine iff_of_true ?_ ⟨(FileTree.find_ok hfound).2.2.1, hsearch⟩
    rw [FileTree.isFile, hfound]
  | file text' =>
    have hjoin := FileTree.find_entry hplain hfind hget nofun
    rw [← joinAll_concat] at hjoin
    rw [FileTree.isFile, hjoin]
    by_cases hsize : FileTree.maxPath < (joinAll root (above ++ [name])).utf8ByteSize
    · rw [if_pos hsize]
      exact iff_of_false nofun fun h => Nat.not_le.2 hsize h.1
    · rw [if_neg hsize]
      cases hsearch : access.searchable with
      | false => exact iff_of_false nofun fun h => Bool.false_ne_true h.2
      | true => exact iff_of_true rfl ⟨Nat.not_lt.1 hsize, rfl⟩
  | _ => cases hbehind

/-- **A listing of a directory is exact and in order.** If it succeeds it gives the relative paths
that lead to files whose own names have the ending, each one once, depth first and in each directory
in the order of the bytes of the names. Such a path is there, seen from the root, iff that is not
longer than a path may be and the directory of its last name may be searched, and whatever else is
there, with the ending, is listed. The listing fails iff something stops the walk: a directory that
may not be read or that is not found by its path, a link that cannot be followed, or a link back to
a directory on the way. -/
theorem list_exact (ht : t.Sound) (hdir : t.isDirectory root = true) (ending : String) :
    (∀ paths, t.list root ending = .ok paths →
      (∃ found : List (List String), paths = found.map relative ∧ found.Pairwise Before ∧
        (∀ names, names ∈ found ↔ Listed t root ending names) ∧
        ∀ names ∈ found, t.isFile (join root (relative names)) = true ↔
          (join root (relative names)).utf8ByteSize ≤ FileTree.maxPath ∧
            Searchable t root names) ∧
      paths.Nodup ∧
      ∀ names name, (∀ n ∈ names ++ [name], Plain n) → hasEnding name ending = true →
        t.isFile (join root (relative (names ++ [name]))) = true →
          relative (names ++ [name]) ∈ paths) ∧
    ((∃ err, t.list root ending = .error err) ↔ ∃ names, Obstacle t root names) := by
  have hexact := list_directory_exact ht hdir ending
  have hroot := FileTree.ne_empty_of_isDirectory hdir
  cases hlist : t.list root ending with
  | error err =>
    rw [hlist] at hexact
    obtain ⟨names, -, hobstacle⟩ := hexact
    exact ⟨nofun, iff_of_true ⟨err, rfl⟩ ⟨names, hobstacle⟩⟩
  | ok paths =>
    rw [hlist] at hexact
    obtain ⟨found, rfl, hsorted, hfound, hclear⟩ := hexact
    simp only [true_and, true_implies] at hfound hclear
    have hplain {names : List String} (hm : names ∈ found) :
        names ≠ [] ∧ ∀ n ∈ names, Plain n := by
      obtain ⟨above, name, place, text, rfl, hl, -⟩ := (hfound names).1 hm
      exact ⟨by simp, hl.plain ht⟩
    refine ⟨?_, iff_of_false nofun fun ⟨names, hobstacle⟩ => hclear names hobstacle⟩
    rintro _ ⟨⟩
    refine ⟨⟨found, rfl, hsorted, hfound, fun names hm => ?_⟩, ?_,
      fun names name hnames hending hfile => ?_⟩
    · obtain ⟨hne, hnames⟩ := hplain hm
      rw [join_relative root hne hnames]
      exact isFile_listed ht hroot hclear ((hfound names).1 hm)
    · refine List.pairwise_map.2 (hsorted.imp_of_mem fun hm hm' hbefore heq => hbefore.ne ?_)
      rw [← components_relative (hplain hm).2, heq, components_relative (hplain hm').2]
    · rw [join_relative root (by simp) hnames] at hfile
      unfold FileTree.isFile at hfile
      split at hfile
      · rename_i place text hfind
        refine List.mem_map_of_mem ((hfound _).2 ⟨names, name, place, text, rfl, ?_, hending⟩)
        exact leads_of_find hroot hnames hfind
      · cases hfile

/-- A link leads to a directory next to the one that is listed, which may be read and not searched:
what is in it is listed and is not there. -/
theorem list_exact_linked :
    let t : FileTree := ⟨.directory [("d", .directory [("a.hbs", .file "1"), ("l", .link "../e")]),
      ("e", .guarded ⟨true, false⟩ [("b.hbs", .file "2"), ("c.txt", .file "3")])], []⟩
    t.Sound ∧ t.isDirectory "d" = true ∧ t.list "d" ".hbs" = .ok ["a.hbs", "l/b.hbs"] ∧
      t.isFile (join "d" "a.hbs") = true ∧ t.isFile (join "d" "l/b.hbs") = false ∧
      (∃ names, relative names = "a.hbs" ∧ Searchable t "d" names) ∧
      (∃ names, relative names = "l/b.hbs" ∧ ¬ Searchable t "d" names) ∧
      ∀ names, ¬ Obstacle t "d" names := by
  intro t
  have ht : t.Sound := by
    refine ⟨.guarded (by decide) (by decide) fun _ hentry => ?_, nofun⟩
    rcases List.mem_pair.1 hentry with rfl | rfl
    · refine .guarded (by decide) (by decide) fun _ hentry => ?_
      rcases List.mem_pair.1 hentry with rfl | rfl
      · exact .file _
      · exact .link (by decide)
    · refine .guarded (by decide) (by decide) fun _ hentry => ?_
      rcases List.mem_pair.1 hentry with rfl | rfl
      · exact .file _
      · exact .file _
  have hdir : t.isDirectory "d" = true := by cbv
  have hlist : t.list "d" ".hbs" = .ok ["a.hbs", "l/b.hbs"] := by cbv
  have hfirst : t.isFile (join "d" "a.hbs") = true := by cbv
  have hsecond : t.isFile (join "d" "l/b.hbs") = false := by cbv
  obtain ⟨hlisted, hfails⟩ := list_exact ht hdir ".hbs"
  obtain ⟨⟨found, hpaths, -, -, hthere⟩, -, -⟩ := hlisted _ hlist
  refine ⟨ht, hdir, hlist, hfirst, hsecond, ?_, ?_, fun names hobstacle => ?_⟩
  · obtain ⟨names, hm, hnames⟩ := List.mem_map.1 (hpaths ▸ List.mem_cons_self)
    exact ⟨names, hnames, ((hthere names hm).1 (hnames ▸ hfirst)).2⟩
  · obtain ⟨names, hm, hnames⟩ :=
      List.mem_map.1 (hpaths ▸ List.mem_cons_of_mem _ List.mem_cons_self)
    refine ⟨names, hnames, fun hsearchable => Bool.false_ne_true (hsecond.symm.trans ?_)⟩
    have hsize : (join "d" "l/b.hbs").utf8ByteSize ≤ FileTree.maxPath := by
      rw [show join "d" "l/b.hbs" = "d/l/b.hbs" by cbv]
      decide
    rw [← hnames] at hsize ⊢
    exact (hthere names hm).2 ⟨hsize, hsearchable⟩
  · obtain ⟨err, herr⟩ := hfails.2 ⟨names, hobstacle⟩
    cases hlist.symm.trans herr

/-- A file is listed although its path, seen from the root, is too long for the file to be there. -/
theorem list_not_exact :
    let t : FileTree := ⟨.directory [("r", .directory [("x.hbs", .file "X")])], []⟩
    let root := "r" ++ slashes 4090
    t.Sound ∧ t.isDirectory root = true ∧ t.list root ".hbs" = .ok ["x.hbs"] ∧
      t.isFile (join root "x.hbs") = false := by
  intro t root
  have ht : t.Sound := by
    refine ⟨.guarded (by decide) (by decide) fun _ hentry => ?_, fun _ hn => by cases hn⟩
    obtain rfl := List.mem_singleton.1 hentry
    refine .guarded (by decide) (by decide) fun _ hentry => ?_
    obtain rfl := List.mem_singleton.1 hentry
    exact .file _
  have hname : Plain "x.hbs" := by decide
  have hsize : root.utf8ByteSize = 4091 := by
    rw [String.utf8ByteSize_append, utf8ByteSize_slashes]
    rfl
  have hfind : t.find true root = .ok (["r"], .directory [("x.hbs", .file "X")]) := by
    have hcomponents : FileTree.components root = ["r"] := components_slashes "r" 4090
    have hstart : t.startOf root = [] := ite_self _
    refine FileTree.find_directory ?_ ?_ ?_ ?_ rfl
    · rw [String.toList_append, List.mem_append, not_or]
      exact ⟨by decide, fun hm => absurd (eq_of_mem_slashes hm) (by decide)⟩
    · exact fun he => absurd (String.append_eq_empty_iff.1 he).1 (by decide)
    · rw [hsize]
      decide
    · have hat : t.root.at? [] = some t.root := rfl
      rw [hcomponents, hstart, FileTree.step_entry hat (by decide) rfl (by decide) (by decide)
        (by decide) (if_pos rfl) (fun _ h => by cases h), FileTree.step]
      rfl
  refine ⟨ht, ?_, ?_, ?_⟩
  · rw [FileTree.isDirectory, hfind]
  · have hending : hasEnding "x.hbs" ".hbs" = true := hasEnding_iff.2 (by decide)
    rw [FileTree.list, hfind]
    simp only [listBehind, listEntries, listEntry, Stand.file, hending, join_empty]
    rfl
  · have hget : Table.get? [("x.hbs", Entry.file "X")] "x.hbs" = some (.file "X") := rfl
    rw [FileTree.isFile, FileTree.find_entry hname hfind hget (fun _ h => by cases h), if_pos]
    have hle := utf8ByteSize_le_join hname root
    have hlong : FileTree.maxPath = 4095 := rfl
    have hshort : ("x.hbs" : String).utf8ByteSize = 5 := rfl
    omega

end Views.Files
