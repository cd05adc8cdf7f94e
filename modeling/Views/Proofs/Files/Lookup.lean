import Views.Proofs.Files.Sound

/-!
# Where paths lead

The components of a path are followed one after the other (`step_append`), so a name joined to the
path of a directory leads to the entry there if the directory may be searched and that path is not
too long (`find_entry`), and only to an entry there (`find_of_join`). A path is never left at a link
(`find_join_ne_link`).
-/

set_option autoImplicit false

namespace Views.Files

theorem Entry.at?_append (e : Entry) (place rest : Place) :
    e.at? (place ++ rest) = (e.at? place).bind fun child => child.at? rest := by
  induction place generalizing e with
  | nil => rw [at?, Option.bind_some, List.nil_append]
  | cons name place ih =>
    cases e with
    | guarded access entries =>
      rw [List.cons_append, at?, at?, Option.bind_assoc]
      simp only [ih]
    | _ => rfl

theorem Entry.at?_concat {e : Entry} {place : Place} {access : Access}
    {entries : List (String × Entry)} (h : e.at? place = some (.guarded access entries))
    (name : String) :
    e.at? (place ++ [name]) = Table.get? entries name := by
  rw [at?_append, h, Option.bind_some, at?]
  cases Table.get? entries name <;> rfl

theorem Entry.directory_of_at?_append {e child : Entry} {place : Place} {name : String}
    (h : e.at? (place ++ [name]) = some child) : ∃ access entries,
      e.at? place = some (.guarded access entries) ∧ Table.get? entries name = some child := by
  rw [at?_append] at h
  obtain ⟨e', he', h⟩ := Option.bind_eq_some_iff.1 h
  cases e' with
  | guarded access entries =>
    refine ⟨access, entries, he', ?_⟩
    have hroot : (Entry.guarded access entries).at? [] = some (.guarded access entries) := rfl
    exact (at?_concat hroot name).symm.trans h
  | _ => cases h

namespace FileTree

variable {t : FileTree} {place : Place} {access : Access} {entries : List (String × Entry)}
  {c : String} {e : Entry}

/-! ## Steps -/

theorem step_dot (hplace : t.root.at? place = some (.guarded access entries))
    (hsearch : access.searchable = true) (last missing : Bool) (links : Nat)
    (rest : List String) :
    t.step last missing links place ("." :: rest) = t.step last missing links place rest := by
  rw [step, hplace]
  dsimp only
  rw [hsearch]
  rfl

theorem step_dots (hplace : t.root.at? place = some (.guarded access entries))
    (hsearch : access.searchable = true) (last missing : Bool) (links : Nat)
    (rest : List String) :
    t.step last missing links place (".." :: rest) =
      t.step last missing links place.dropLast rest := by
  rw [step, hplace]
  dsimp only
  rw [hsearch]
  rfl

theorem step_link (hplace : t.root.at? place = some (.guarded access entries)) (hempty : c ≠ "")
    (hsearch : access.searchable = true) (hdot : c ≠ ".") (hdots : c ≠ "..")
    (hsize : ¬ maxName < c.utf8ByteSize) {target : String}
    (hget : Table.get? entries c = some (.link target)) {last : Bool} {rest : List String}
    (hfollow : (rest.isEmpty && !last) = false) (missing : Bool) (links : Nat) :
    t.step last missing (links + 1) place (c :: rest) =
      t.step last missing links (if isAbsolute target then [] else place)
        (targetComponents target ++ rest) := by
  rw [step, hplace]
  simp [hempty, hsearch, hdot, hdots, hsize, hget, hfollow]

theorem step_entry (hplace : t.root.at? place = some (.guarded access entries)) (hempty : c ≠ "")
    (hsearch : access.searchable = true) (hdot : c ≠ ".") (hdots : c ≠ "..")
    (hsize : ¬ maxName < c.utf8ByteSize) (hget : Table.get? entries c = some e)
    (hlink : ∀ target, e ≠ .link target) (last missing : Bool) (links : Nat) (rest : List String) :
    t.step last missing links place (c :: rest) =
      t.step last missing links (place ++ [c]) rest := by
  rw [step, hplace]
  simp only [hempty, hsearch, hdot, hdots, hsize, hget, if_false, Bool.not_true,
    Bool.false_eq_true]

/-- Nothing is found by its name in a directory that may not be searched. -/
theorem step_denied (hplace : t.root.at? place = some (.guarded access entries)) (hempty : c ≠ "")
    (hsearch : access.searchable = false) (last missing : Bool) (links : Nat)
    (rest : List String) :
    t.step last missing links place (c :: rest) = .error .permissionDenied := by
  rw [step, hplace]
  simp [hempty, hsearch]

/-- If more components follow, one goes on from where the first ones lead. -/
theorem step_append (last missing : Bool) (links : Nat) (place : Place) (cs : List String)
    (c : String) (rest : List String) :
    match t.step true false links place cs with
    | .error fault => t.step last missing links place (cs ++ c :: rest) = .error fault
    | .ok place' => ∃ links',
      t.step last missing links place (cs ++ c :: rest) =
        t.step last missing links' place' (c :: rest) := by
  fun_induction t.step true false links place cs with
  | case1 links place => exact ⟨links, rfl⟩
  | case2 links place cs access entries hplace ih =>
    rwa [List.cons_append, step, hplace]
  | case3 links place c' cs access entries hplace hempty hsearch =>
    simp [step, hplace, hempty, hsearch]
  | case4 links place cs access entries hplace hsearch hempty ih =>
    rwa [List.cons_append, step_dot hplace (by simpa using hsearch)]
  | case5 links place cs access entries hplace hsearch hempty hdot ih =>
    rwa [List.cons_append, step_dots hplace (by simpa using hsearch)]
  | case6 links place c' cs access entries hplace hempty hsearch hdot hdots hsize =>
    simp [step, hplace, hempty, hsearch, hdot, hdots, hsize]
  | case7 links place c' cs access entries hplace hempty hsearch hdot hdots hsize hget hmissing =>
    cases hmissing
  | case8 links place c' cs access entries hplace hempty hsearch hdot hdots hsize hget hmissing =>
    simp [step, hplace, hempty, hsearch, hdot, hdots, hsize, hget]
  | case9 links place c' cs access entries hplace hempty hsearch hdot hdots hsize target hget
      hlast =>
    simp at hlast
  | case10 place c' cs access entries hplace hempty hsearch hdot hdots hsize target hget hlast =>
    simp [step, hplace, hempty, hsearch, hdot, hdots, hsize, hget]
  | case11 place c' cs access entries hplace hempty hsearch hdot hdots hsize target hget hlast links
      start ih =>
    rwa [List.cons_append, step_link hplace hempty (by simpa using hsearch) hdot hdots hsize hget
      (by simp), ← List.append_assoc]
  | case12 links place c' cs access entries hplace hempty hsearch hdot hdots hsize e hlink hget
      ih =>
    rwa [List.cons_append, step_entry hplace hempty (by simpa using hsearch) hdot hdots hsize hget
      hlink]
  | case13 links place c' cs e hdirectory hplace => simp [step, hplace]
  | case14 links place c' cs hplace => simp [step, hplace]

/-! ## Look-ups -/

/-- Where a path starts. -/
def startOf (t : FileTree) (path : String) : Place := if isAbsolute path then [] else t.working

/-- What is looked up is an entry of the tree, that the components of the path lead to. -/
theorem find_ok {path : String} (h : t.find true path = .ok (place, e)) :
    '\x00' ∉ path.toList ∧ path ≠ "" ∧ path.utf8ByteSize ≤ maxPath ∧
      t.step true false maxLinks (t.startOf path) (components path) = .ok place ∧
      t.root.at? place = some e := by
  unfold find placeOf at h
  split at h
  · cases h
  · rename_i hnul
    split at h
    · cases h
    · rename_i hne
      split at h
      · cases h
      · rename_i hsize
        refine ⟨hnul, hne, Nat.le_of_not_lt hsize, ?_⟩
        obtain ⟨place', hstep, h⟩ := exists_of_bind h
        split at h
        · cases h
        · rename_i hat
          cases h
          exact ⟨hstep, hat⟩
        · rename_i hat
          split at h
          · cases h
          · cases h
            exact ⟨hstep, hat⟩

theorem ne_empty_of_isDirectory {path : String} (h : t.isDirectory path = true) : path ≠ "" := by
  unfold isDirectory at h
  split at h
  · exact (find_ok ‹_›).2.1
  · cases h

/-- A path that is short enough leads where its components lead, if there is no slash at its end. -/
theorem find_eq {path : String} (hnul : '\x00' ∉ path.toList) (hne : path ≠ "")
    (hslash : hasEnding path "/" = false) :
    t.find true path = if maxPath < path.utf8ByteSize then .error .nameTooLong
      else (t.step true false maxLinks (t.startOf path) (components path)).bind fun place =>
        match t.root.at? place with
        | none => .error .notFound
        | some e => .ok (place, e) := by
  unfold find placeOf
  rw [if_neg hnul, if_neg hne]
  split
  · rfl
  · show Except.bind (t.step true false maxLinks (t.startOf path) (components path)) _ = _
    congr
    funext place
    simp only [hslash]
    cases t.root.at? place with
    | none => rfl
    | some e => cases e <;> rfl

/-- From where a path leads one goes on to a name that is joined to it. -/
theorem step_join {path name : String} (h : Plain name) (hne : path ≠ "") :
    match t.step true false maxLinks (t.startOf path) (components path) with
    | .error fault => t.step true false maxLinks (t.startOf (join path name))
        (components (join path name)) = .error fault
    | .ok place => ∃ links, t.step true false maxLinks (t.startOf (join path name))
        (components (join path name)) = t.step true false links place [name] := by
  have hstart : t.startOf (join path name) = t.startOf path := by
    rw [startOf, isAbsolute_join h hne, startOf]
  rw [components_join h, hstart]
  exact t.step_append true false maxLinks (t.startOf path) (components path) name []

/-- A name in a directory leads to where one step leads from there. -/
theorem find_join {path name : String} (h : Plain name)
    (hfind : t.find true path = .ok (place, .guarded access entries)) : ∃ links,
    t.find true (join path name) =
      if maxPath < (join path name).utf8ByteSize then .error .nameTooLong
      else (t.step true false links place [name]).bind fun place' =>
        match t.root.at? place' with
        | none => .error .notFound
        | some e => .ok (place', e) := by
  obtain ⟨hnul, hne, -, hstep, -⟩ := find_ok hfind
  have hjoin := t.step_join h hne
  rw [hstep] at hjoin
  obtain ⟨links, hlinks⟩ := hjoin
  refine ⟨links, ?_⟩
  rw [find_eq (nul_notMem_join h hnul) (join_ne_empty h path) (hasEnding_join h path), hlinks]

/-- A plain entry of a directory is found there, unless the path is too long or the directory may
not be searched. -/
theorem find_entry {path name : String} (h : Plain name)
    (hfind : t.find true path = .ok (place, .guarded access entries))
    (hget : Table.get? entries name = some e) (hlink : ∀ target, e ≠ .link target) :
    t.find true (join path name) =
      if maxPath < (join path name).utf8ByteSize then .error .nameTooLong
      else if access.searchable then .ok (place ++ [name], e) else .error .permissionDenied := by
  obtain ⟨links, hlinks⟩ := find_join h hfind
  have hat := (find_ok hfind).2.2.2.2
  rw [hlinks]
  cases hsearch : access.searchable with
  | false =>
    rw [step_denied hat h.ne_empty hsearch]
    rfl
  | true =>
    rw [step_entry hat h.ne_empty hsearch h.dot h.dots (Nat.not_lt.2 h.size) hget hlink, step]
    simp only [Except.bind, Entry.at?_concat hat, hget, if_true]

theorem find_entry_eq {path name : String} (h : Plain name)
    (hfind : t.find true path = .ok (place, .guarded access entries))
    (hget : Table.get? entries name = some e) (hlink : ∀ target, e ≠ .link target)
    {found : Place × Entry} (hfound : t.find true (join path name) = .ok found) :
    found = (place ++ [name], e) := by
  rw [find_entry h hfind hget hlink] at hfound
  split at hfound
  · cases hfound
  · split at hfound
    · exact (Except.ok.inj hfound).symm
    · cases hfound

/-- Links are followed to their end. -/
theorem step_ne_link {missing : Bool} {links : Nat} {cs : List String} {place' : Place}
    (hroot : ∀ target, t.root ≠ .link target)
    (hplace : ∀ target, t.root.at? place ≠ some (.link target))
    (h : t.step true missing links place cs = .ok place') (target : String) :
    t.root.at? place' ≠ some (.link target) := by
  fun_induction t.step true missing links place cs with
  | case1 links place =>
    cases h
    exact hplace target
  | case2 links place cs access entries hat ih => exact ih hplace h
  | case4 links place cs access entries hat hsearch hempty ih => exact ih hplace h
  | case5 links place cs access entries hat hsearch hempty hdot ih =>
    refine ih (fun target' => ?_) h
    rcases place.eq_nil_or_concat with rfl | ⟨front, name, rfl⟩
    · exact hplace target'
    · rw [List.concat_eq_append] at hat
      obtain ⟨access', above, habove, -⟩ := Entry.directory_of_at?_append hat
      rw [List.concat_eq_append, List.dropLast_concat, habove]
      rintro ⟨⟩
  | case7 links place c cs access entries hat hempty hsearch hdot hdots hsize hget hmissing =>
    cases h
    rw [Entry.at?_concat hat, hget]
    rintro ⟨⟩
  | case11 place c cs access entries hat hempty hsearch hdot hdots hsize target' hget hlast links
      start ih =>
    refine ih (fun target'' => ?_) h
    show t.root.at? (if isAbsolute target' then [] else place) ≠ _
    split
    · exact fun he => hroot target'' (Option.some.inj he)
    · exact hplace target''
  | case12 links place c cs access entries hat hempty hsearch hdot hdots hsize e hlink hget ih =>
    refine ih (fun target' => ?_) h
    rw [Entry.at?_concat hat, hget]
    exact fun he => hlink target' (Option.some.inj he)
  | case9 links place c cs access entries hat hempty hsearch hdot hdots hsize target' hget hlast =>
    simp at hlast
  | _ => cases h

theorem root_ne_link (h : t.root.at? place = some (.guarded access entries)) (target : String) :
    t.root ≠ .link target := by
  intro he
  rw [he] at h
  cases place <;> cases h

theorem find_join_ne_link {path name : String} (h : Plain name)
    (hfind : t.find true path = .ok (place, .guarded access entries)) {place' : Place}
    {target : String} :
    t.find true (join path name) ≠ .ok (place', .link target) := by
  intro hlink
  obtain ⟨-, hne, -, hstep, hat⟩ := find_ok hfind
  obtain ⟨-, -, -, hstep', hat'⟩ := find_ok hlink
  have hjoin := t.step_join h hne
  rw [hstep] at hjoin
  obtain ⟨links, hlinks⟩ := hjoin
  rw [hlinks] at hstep'
  refine step_ne_link (root_ne_link hat) (fun target' => ?_) hstep' target hat'
  rw [hat]
  nofun

theorem find_directory {path : String} (hnul : '\x00' ∉ path.toList) (hne : path ≠ "")
    (hsize : path.utf8ByteSize ≤ maxPath)
    (hstep : t.step true false maxLinks (t.startOf path) (components path) = .ok place)
    (hat : t.root.at? place = some (.guarded access entries)) :
    t.find true path = .ok (place, .guarded access entries) := by
  unfold find placeOf
  rw [if_neg hnul, if_neg hne, if_neg (Nat.not_lt.2 hsize)]
  show Except.bind (t.step true false maxLinks (t.startOf path) (components path)) _ = _
  rw [hstep, Except.bind, hat]
  rfl

theorem exists_entry_of_step (hempty : c ≠ "") (hdot : c ≠ ".") (hdots : c ≠ "..") {links : Nat}
    {place' : Place} (h : t.step true false links place [c] = .ok place') :
    ∃ access entries child, t.root.at? place = some (.guarded access entries) ∧
      access.searchable = true ∧ Table.get? entries c = some child := by
  rw [step] at h
  split at h
  · rename_i access entries hat
    rw [if_neg hempty] at h
    split at h
    · cases h
    · rename_i hsearch
      split at h
      · cases h
      · cases hget : Table.get? entries c with
        | some child => exact ⟨access, entries, child, hat, by simpa using hsearch, hget⟩
        | none => rw [hget] at h; cases h
  · cases h
  · cases h

/-- What is found by a name joined to a path is in a directory that the path leads to, and that may
be searched. -/
theorem find_of_join {path name : String} (h : Plain name) (hne : path ≠ "") {place' : Place}
    (hfind : t.find true (join path name) = .ok (place', e)) : ∃ place access entries child,
    t.find true path = .ok (place, .guarded access entries) ∧ access.searchable = true ∧
      Table.get? entries name = some child := by
  obtain ⟨hnul, -, hsize, hstep', -⟩ := find_ok hfind
  have hnul' : '\x00' ∉ path.toList := fun hm => hnul (by
    rw [join_eq h.not_isAbsolute, String.append_assoc, String.toList_append]
    exact List.mem_append_left _ hm)
  have hjoin := t.step_join h hne
  cases hstep : t.step true false maxLinks (t.startOf path) (components path) with
  | error fault =>
    rw [hstep] at hjoin
    cases hjoin.symm.trans hstep'
  | ok place =>
    rw [hstep] at hjoin
    obtain ⟨links, hlinks⟩ := hjoin
    obtain ⟨access, entries, child, hat, hsearch, hget⟩ :=
      exists_entry_of_step h.ne_empty h.dot h.dots (hlinks.symm.trans hstep')
    exact ⟨place, access, entries, child, find_directory hnul' hne
      (Nat.le_trans (Nat.le_of_add_right_le (utf8ByteSize_le_join h path)) hsize) hstep hat,
      hsearch, hget⟩

end FileTree

end Views.Files
