import Views.Proofs.Files.Lookup

/-!
# What names lead to from a root

A walk goes from a directory to its entries, by their names, and follows links. `Leads` says where
names lead, one constructor for the root and one for a name, and `Obstacle` what stops the walk.
Names lead to one entry (`Leads.eq`), and what a path finds is what its names lead to
(`leads_of_find`).
-/

set_option autoImplicit false

namespace Views.Files

/-! ## What names lead to -/

/-- What is behind an entry at a place: a link is followed along its path. -/
def FileTree.behind (t : FileTree) (path : String) (place : Place) :
    Entry → Except SystemFault (Place × Entry)
  | .link _ => t.find true path
  | e => .ok (place, e)

/-- The names lead from a root to an entry at a place, if links are followed. -/
inductive Leads (t : FileTree) (root : String) : List String → Place → Entry → Prop where
  | start {place : Place} {e : Entry} (found : t.find true root = .ok (place, e)) :
      Leads t root [] place e
  | down {names : List String} {place place' : Place} {access : Access}
      {entries : List (String × Entry)} {name : String} {child e : Entry}
      (above : Leads t root names place (.guarded access entries))
      (entry : Table.get? entries name = some child)
      (found : t.behind (joinAll root (names ++ [name])) (place ++ [name]) child =
        .ok (place', e)) :
      Leads t root (names ++ [name]) place' e

/-- What stops a walk from a root. -/
inductive Obstacle (t : FileTree) (root : String) : List String → Prop where
  /-- A directory that may not be read. -/
  | unreadable {names : List String} {place : Place} {access : Access}
      {entries : List (String × Entry)} (leads : Leads t root names place (.guarded access entries))
      (denied : access.readable = false) : Obstacle t root names
  /-- A link or a directory that cannot be found by its path. -/
  | unfound {names : List String} {place : Place} {access : Access}
      {entries : List (String × Entry)} {name : String} {child : Entry} {fault : SystemFault}
      (above : Leads t root names place (.guarded access entries))
      (entry : Table.get? entries name = some child) (no_file : ∀ text, child ≠ .file text)
      (found : t.find true (joinAll root (names ++ [name])) = .error fault) :
      Obstacle t root (names ++ [name])
  /-- A link to a directory that the walk is inside of. -/
  | loop {names outer : List String} {place place' : Place} {access access' : Access}
      {entries entries' : List (String × Entry)} {name target : String}
      (above : Leads t root names place (.guarded access entries))
      (entry : Table.get? entries name = some (.link target))
      (found : t.find true (joinAll root (names ++ [name])) =
        .ok (place', .guarded access' entries'))
      (inside : outer <+: names) (leads : Leads t root outer place' (.guarded access' entries')) :
      Obstacle t root (names ++ [name])

/-- The last name is that of an entry of a directory. -/
def Met (t : FileTree) (root : String) (names : List String) : Prop :=
  ∃ above name place access entries child, names = above ++ [name] ∧
    Leads t root above place (.guarded access entries) ∧ Table.get? entries name = some child

/-- The last name is that of an entry of a directory that may be searched. -/
def Searchable (t : FileTree) (root : String) (names : List String) : Prop :=
  ∃ above name place access entries, names = above ++ [name] ∧
    Leads t root above place (.guarded access entries) ∧ access.searchable = true

variable {t : FileTree} {root name : String} {names rest : List String} {place place' : Place}
  {access : Access} {entries : List (String × Entry)} {child e e' : Entry}

namespace Leads

theorem concat_iff : Leads t root (names ++ [name]) place' e ↔ ∃ place access entries child,
    Leads t root names place (.guarded access entries) ∧ Table.get? entries name = some child ∧
      t.behind (joinAll root (names ++ [name])) (place ++ [name]) child = .ok (place', e) := by
  constructor
  · intro h
    generalize hl : names ++ [name] = l at h
    cases h with
    | start found => simp at hl
    | down above entry found =>
      obtain ⟨rfl, rfl⟩ := List.append_singleton_inj.1 hl
      exact ⟨_, _, _, _, above, entry, found⟩
  · rintro ⟨place, access, entries, child, above, entry, found⟩
    exact .down above entry found

/-- Names lead to one entry. -/
theorem eq (h : Leads t root names place e) (h' : Leads t root names place' e') :
    place = place' ∧ e = e' := by
  induction h generalizing place' e' with
  | start found =>
    generalize hl : ([] : List String) = l at h'
    cases h' with
    | start found' => simpa using found.symm.trans found'
    | down => simp at hl
  | down above entry found ih =>
    obtain ⟨_, _, _, _, above', entry', found'⟩ := concat_iff.1 h'
    obtain ⟨rfl, he⟩ := ih above'
    cases he
    obtain rfl := Option.some.inj (entry.symm.trans entry')
    simpa using found.symm.trans found'

/-- Names stand for one entry of one directory. -/
theorem entry_eq {names' : List String} {name' : String} {access' : Access}
    {entries' : List (String × Entry)} {child' : Entry}
    (h : Leads t root names place (.guarded access entries))
    (hget : Table.get? entries name = some child)
    (h' : Leads t root names' place' (.guarded access' entries'))
    (hget' : Table.get? entries' name' = some child') (hn : names ++ [name] = names' ++ [name']) :
    names = names' ∧ child = child' := by
  obtain ⟨rfl, rfl⟩ := List.append_singleton_inj.1 hn
  cases (h.eq h').2
  exact ⟨rfl, Option.some.inj (hget.symm.trans hget')⟩

theorem at? (h : Leads t root names place e) : t.root.at? place = some e := by
  induction h with
  | start found => exact (FileTree.find_ok found).2.2.2.2
  | @down names place place' access entries name child e above entry found ih =>
    cases child with
    | link target => exact (FileTree.find_ok found).2.2.2.2
    | _ =>
      cases found
      rw [Entry.at?_concat ih, entry]

theorem plain_entry (ht : t.Sound) (h : Leads t root names place (.guarded access entries))
    (hget : Table.get? entries name = some child) : Plain name :=
  (ht.root.at? h.at?).plain_of_get? hget

theorem plain (ht : t.Sound) (h : Leads t root names place e) : ∀ name ∈ names, Plain name := by
  induction h with
  | start found => nofun
  | down above entry found ih =>
    intro name hname
    rcases List.mem_append.1 hname with hname | hname
    · exact ih name hname
    · exact List.mem_singleton.1 hname ▸ above.plain_entry ht entry

theorem plain_concat (ht : t.Sound) (h : Leads t root names place (.guarded access entries))
    (hget : Table.get? entries name = some child) : ∀ n ∈ names ++ [name], Plain n := by
  intro n hn
  rcases List.mem_append.1 hn with hn | hn
  · exact h.plain ht n hn
  · exact List.mem_singleton.1 hn ▸ h.plain_entry ht hget

end Leads

namespace Met

theorem of_leads (h : Leads t root names place e) (hn : names ≠ []) : Met t root names := by
  cases h with
  | start found => exact absurd rfl hn
  | down above entry found => exact ⟨_, _, _, _, _, _, rfl, above, entry⟩

theorem of_obstacle (h : Obstacle t root names) (hn : names ≠ []) : Met t root names := by
  cases h with
  | unreadable leads denied => exact of_leads leads hn
  | unfound above entry no_file found => exact ⟨_, _, _, _, _, _, rfl, above, entry⟩
  | loop above entry found inside leads => exact ⟨_, _, _, _, _, _, rfl, above, entry⟩

/-- All names on the way are names of entries. -/
theorem above (h : Met t root (names ++ name :: rest)) : ∃ place access entries child,
    Leads t root names place (.guarded access entries) ∧ Table.get? entries name = some child := by
  induction rest using List.reverseRecOn with
  | nil =>
    obtain ⟨above, name', place, access, entries, child, heq, hl, hget⟩ := h
    obtain ⟨rfl, rfl⟩ := List.append_singleton_inj.1 heq
    exact ⟨place, access, entries, child, hl, hget⟩
  | append_singleton rest last ih =>
    obtain ⟨above, name', place, access, entries, child, heq, hl, hget⟩ := h
    rw [← List.cons_append, ← List.append_assoc] at heq
    obtain ⟨rfl, -⟩ := List.append_singleton_inj.1 heq
    exact ih (of_leads hl (by simp))

end Met

/-- An obstacle at an entry of a directory. -/
theorem Obstacle.cases_entry (hl : Leads t root names place (.guarded access entries))
    (hget : Table.get? entries name = some child) (h : Obstacle t root (names ++ [name])) :
    (∃ place' access' entries', Leads t root (names ++ [name]) place' (.guarded access' entries') ∧
      access'.readable = false) ∨
    ((∀ text, child ≠ .file text) ∧ ∃ fault,
      t.find true (joinAll root (names ++ [name])) = .error fault) ∨
    ((∃ target, child = .link target) ∧ ∃ place' access' entries' outer,
      t.find true (joinAll root (names ++ [name])) = .ok (place', .guarded access' entries') ∧
        outer <+: names ∧ Leads t root outer place' (.guarded access' entries')) := by
  generalize hn : names ++ [name] = names' at h
  cases h with
  | unreadable leads denied => exact .inl ⟨_, _, _, leads, denied⟩
  | unfound above entry no_file found =>
    obtain ⟨rfl, rfl⟩ := hl.entry_eq hget above entry hn
    exact .inr (.inl ⟨no_file, _, found⟩)
  | loop above entry found inside leads =>
    obtain ⟨rfl, rfl⟩ := hl.entry_eq hget above entry hn
    exact .inr (.inr ⟨⟨_, rfl⟩, _, _, _, _, found, inside, leads⟩)

/-- There is no obstacle at a file. -/
theorem not_obstacle_file {text : Option String}
    (hl : Leads t root names place (.guarded access entries))
    (hget : Table.get? entries name = some (.file text)) : ¬ Obstacle t root (names ++ [name]) := by
  intro h
  rcases h.cases_entry hl hget with ⟨place', access', entries', hdenied, -⟩ | ⟨hfile, -⟩ |
    ⟨⟨target, hlink⟩, -⟩
  · cases (hdenied.eq (.down hl hget rfl)).2
  · exact hfile text rfl
  · cases hlink

/-- There is no obstacle at what is found by its path, unless it is a directory that may not be read
or a link closes a loop there. -/
theorem not_obstacle_of_find (hl : Leads t root names place (.guarded access entries))
    (hget : Table.get? entries name = some child)
    (hl' : Leads t root (names ++ [name]) place' e)
    (hfound : t.find true (joinAll root (names ++ [name])) = .ok (place', e))
    (hreadable : ∀ access' entries', e = .guarded access' entries' → access'.readable = true)
    (hloop : ∀ target outer access' entries', child = .link target → e = .guarded access' entries' →
      outer <+: names → ¬ Leads t root outer place' (.guarded access' entries')) :
    ¬ Obstacle t root (names ++ [name]) := by
  intro h
  rcases h.cases_entry hl hget with ⟨place'', access', entries', hl'', hdenied⟩ |
    ⟨-, fault, herror⟩ |
    ⟨⟨target, hlink⟩, place'', access', entries', outer, hfound', hinside, hl''⟩
  · exact Bool.false_ne_true (hdenied.symm.trans (hreadable _ _ (hl'.eq hl'').2))
  · cases herror.symm.trans hfound
  · cases hfound.symm.trans hfound'
    exact hloop target outer access' entries' hlink rfl hinside hl''

/-! ## Look-ups -/

/-- What a path finds is what its names lead to. -/
theorem leads_of_find (hroot : root ≠ "") (h : ∀ name ∈ names, Plain name)
    (hfind : t.find true (joinAll root names) = .ok (place, e)) : Leads t root names place e := by
  induction names using List.reverseRecOn generalizing place e with
  | nil => exact .start hfind
  | append_singleton names name ih =>
    have hfront : ∀ name ∈ names, Plain name := fun n hn => h n (by simp [hn])
    have hlast : Plain name := h name (by simp)
    have hjoin := hfind
    rw [joinAll_concat] at hjoin
    obtain ⟨above, access, entries, child, hdirectory, hsearch, hget⟩ :=
      FileTree.find_of_join hlast (joinAll_ne_empty hroot hfront) hjoin
    refine .down (ih hfront hdirectory) hget ?_
    cases child with
    | link target => exact hfind
    | _ =>
      rw [FileTree.find_entry hlast hdirectory hget nofun, hsearch] at hjoin
      split at hjoin
      · cases hjoin
      · exact hjoin

/-- A directory that names lead to is found by its path, if nothing stops the walk there. -/
theorem Leads.find (ht : t.Sound) (h : Leads t root names place (.guarded access entries))
    (hfree : ∀ names', names' <+: names → ¬ Obstacle t root names') :
    t.find true (joinAll root names) = .ok (place, .guarded access entries) := by
  generalize he : Entry.guarded access entries = e at h
  induction h generalizing access entries with
  | start found => exact found
  | @down names place place' _ _ name child e above entry found ih =>
    subst he
    cases child with
    | link target => exact found
    | guarded access' sub =>
      cases found
      have hplain : Plain name := above.plain_entry ht entry
      have habove := ih (fun names' h => hfree names' (h.trans (List.prefix_append _ _))) rfl
      cases hfind : t.find true (joinAll root (names ++ [name])) with
      | error fault => exact absurd (.unfound above entry nofun hfind) (hfree _ List.prefix_rfl)
      | ok found =>
        rw [joinAll_concat] at hfind
        rw [FileTree.find_entry_eq hplain habove entry nofun hfind]
    | _ => cases found

end Views.Files
