import Views.Files.Operation
import Views.Proofs.Files.Names
import Views.Proofs.Table

/-!
# Sound trees

In a sound tree the entries of every directory have names that a file system allows, and are in the
order of their names. Operations on files take sound trees to sound trees (`FileTree.Sound.perform`,
`FileTree.Sound.remove`).
-/

set_option autoImplicit false

namespace Views.Files

/-- An entry as a file system has it. -/
inductive Entry.Sound : Entry → Prop where
  | file (text : Option String) : Sound (.file text)
  | link {target : String} (nul : '\x00' ∉ target.toList) : Sound (.link target)
  | guarded {access : Access} {entries : List (String × Entry)} (ordered : Table.Ordered entries)
      (plain : ∀ entry ∈ entries, Plain entry.1) (sound : ∀ entry ∈ entries, entry.2.Sound) :
      Sound (.guarded access entries)

/-- A tree as a file system has it. -/
structure FileTree.Sound (t : FileTree) : Prop where
  root : t.root.Sound
  working : ∀ name ∈ t.working, Plain name

variable {t : FileTree} {e child : Entry} {access : Access} {entries : List (String × Entry)}
  {place place' : Place} {path : String}

/-- A computation succeeds if both of its parts do. -/
theorem exists_of_bind {ε α β : Type} {x : Except ε α} {f : α → Except ε β} {b : β}
    (h : (x >>= f) = .ok b) : ∃ a, x = .ok a ∧ f a = .ok b := by
  cases x with
  | error fault => cases h
  | ok a => exact ⟨a, rfl, h⟩

namespace Entry.Sound

theorem ordered (h : (Entry.guarded access entries).Sound) : Table.Ordered entries := by
  cases h with
  | guarded ordered plain sound => exact ordered

theorem plain_of_get? {name : String} (h : (Entry.guarded access entries).Sound)
    (hget : Table.get? entries name = some child) : Plain name := by
  cases h with
  | guarded ordered plain sound => exact plain _ (Table.mem_of_get? hget)

theorem of_get? {name : String} (h : (Entry.guarded access entries).Sound)
    (hget : Table.get? entries name = some child) : child.Sound := by
  cases h with
  | guarded ordered plain sound => exact sound _ (Table.mem_of_get? hget)

theorem at? (h : e.Sound) (hat : e.at? place = some child) : child.Sound := by
  induction place generalizing e with
  | nil =>
    cases hat
    exact h
  | cons name place ih =>
    cases e with
    | guarded access entries =>
      obtain ⟨next, hget, hat⟩ := Option.bind_eq_some_iff.1 hat
      exact ih (h.of_get? hget) hat
    | _ => cases hat

theorem nul {target : String} (h : (Entry.link target).Sound) : '\x00' ∉ target.toList := by
  cases h with
  | link nul => exact nul

theorem insert {name : String} (h : (Entry.guarded access entries).Sound) (hname : Plain name)
    (hchild : child.Sound) : (Entry.guarded access (Table.insert entries name child)).Sound := by
  cases h with
  | guarded ordered plain sound =>
    refine .guarded (ordered.insert name child) (fun entry hm => ?_) fun entry hm => ?_
    · rcases Table.mem_insert hm with rfl | hm
      · exact hname
      · exact plain entry hm
    · rcases Table.mem_insert hm with rfl | hm
      · exact hchild
      · exact sound entry hm

theorem filter (h : (Entry.guarded access entries).Sound) (p : String × Entry → Bool) :
    (Entry.guarded access (entries.filter p)).Sound := by
  cases h with
  | guarded ordered plain sound =>
    exact .guarded (List.Pairwise.filter p ordered)
      (fun entry hm => plain entry (List.mem_filter.1 hm).1)
      fun entry hm => sound entry (List.mem_filter.1 hm).1

theorem replace {name : String} (h : (Entry.guarded access entries).Sound) (hname : Plain name)
    {result : Option Entry} (hresult : ∀ c ∈ result, c.Sound) :
    ∀ c ∈ (match result with
      | some child => some (Entry.guarded access (Table.insert entries name child))
      | none => some (.guarded access (entries.filter fun entry => entry.1 != name))), c.Sound := by
  cases result with
  | none =>
    rintro _ ⟨⟩
    exact h.filter _
  | some child =>
    rintro _ ⟨⟩
    exact h.insert hname (hresult child rfl)

/-- A change at a place, to something sound or to nothing. -/
theorem change {f : Option Entry → Option Entry} (hf : ∀ child, ∀ c ∈ f child, c.Sound)
    (h : e.Sound) (hplace : ∀ name ∈ place, Plain name) : ∀ c ∈ e.change f place, c.Sound := by
  induction place generalizing e with
  | nil => exact hf _
  | cons name rest ih =>
    cases e with
    | guarded access entries =>
      intro c hc
      have hname := hplace name List.mem_cons_self
      have hrest : ∀ n ∈ rest, Plain n := fun n hn => hplace n (List.mem_cons_of_mem _ hn)
      have hnext : ((Table.get? entries name).getD (.directory [])).Sound := by
        cases hget : Table.get? entries name with
        | none => exact .guarded .nil nofun nofun
        | some next => exact h.of_get? hget
      cases rest with
      | nil => exact h.replace hname (hf _) c hc
      | cons next rest => exact h.replace hname (ih hnext hrest) c hc
    | _ =>
      rintro _ ⟨⟩
      exact h

end Entry.Sound

namespace FileTree

/-! ## Where paths lead -/

theorem component_of_mem_target {target c : String} (h : '\x00' ∉ target.toList)
    (hc : c ∈ targetComponents target) : c = "" ∨ Component c := by
  rcases List.mem_append.1 hc with hc | hc
  · exact .inr (component_of_mem h hc)
  · split at hc
    · exact .inl (List.mem_singleton.1 hc)
    · cases hc

theorem plain_concat {c : String} (hplace : ∀ name ∈ place, Plain name)
    (hc : c = "" ∨ Component c) (hempty : c ≠ "") (hdot : c ≠ ".") (hdots : c ≠ "..")
    (hsize : ¬ maxName < c.utf8ByteSize) :
    ∀ name ∈ place ++ [c], Plain name := by
  intro name hname
  rcases List.mem_append.1 hname with hname | hname
  · exact hplace name hname
  · obtain rfl := List.mem_singleton.1 hname
    exact ⟨hc.resolve_left hempty, hdot, hdots, Nat.not_lt.1 hsize⟩

/-- The names on the way are names that a file system allows, that of a missing entry as well. -/
theorem Sound.step (ht : t.Sound) {last missing : Bool} {links : Nat} {cs : List String}
    (hplace : ∀ name ∈ place, Plain name) (hcs : ∀ c ∈ cs, c = "" ∨ Component c)
    (h : t.step last missing links place cs = .ok place') : ∀ name ∈ place', Plain name := by
  have hrest {c : String} {cs : List String} (h : ∀ c' ∈ c :: cs, c' = "" ∨ Component c') :
      ∀ c' ∈ cs, c' = "" ∨ Component c' := fun c' hc' => h c' (List.mem_cons_of_mem _ hc')
  fun_induction t.step last missing links place cs with
  | case1 links place =>
    cases h
    exact hplace
  | case2 links place cs access entries hat ih => exact ih hplace (hrest hcs) h
  | case4 links place cs access entries hat hsearch hempty ih => exact ih hplace (hrest hcs) h
  | case5 links place cs access entries hat hsearch hempty hdot ih =>
    exact ih (fun n hn => hplace n ((List.dropLast_sublist _).subset hn)) (hrest hcs) h
  | case7 links place c cs access entries hat hempty hsearch hdot hdots hsize hget hmissing =>
    cases h
    exact plain_concat hplace (hcs c List.mem_cons_self) hempty hdot hdots hsize
  | case9 links place c cs access entries hat hempty hsearch hdot hdots hsize target hget hlast =>
    cases h
    exact plain_concat hplace (hcs c List.mem_cons_self) hempty hdot hdots hsize
  | case11 place c cs access entries hat hempty hsearch hdot hdots hsize target hget hlast links
      start ih =>
    have hstart : ∀ name ∈ start, Plain name := by
      show ∀ name ∈ (if isAbsolute target then [] else place), Plain name
      split
      · nofun
      · exact hplace
    refine ih hstart (fun c' hc' => ?_) h
    rcases List.mem_append.1 hc' with hc' | hc'
    · exact component_of_mem_target (ht.root.at? hat |>.of_get? hget).nul hc'
    · exact hrest hcs c' hc'
  | case12 links place c cs access entries hat hempty hsearch hdot hdots hsize e hlink hget ih =>
    exact ih (plain_concat hplace (hcs c List.mem_cons_self) hempty hdot hdots hsize) (hrest hcs) h
  | _ => cases h

theorem Sound.placeOf (ht : t.Sound) {last missing : Bool}
    (h : t.placeOf last missing path = .ok place) : ∀ name ∈ place, Plain name := by
  unfold FileTree.placeOf at h
  split at h
  · cases h
  · rename_i hnul
    split at h
    · cases h
    · split at h
      · cases h
      · have hstart : ∀ name ∈ (if isAbsolute path then [] else t.working), Plain name := by
          split
          · nofun
          · exact ht.working
        exact ht.step hstart (fun c hc => .inr (component_of_mem hnul hc)) h

/-! ## Operations -/

theorem sound_empty : empty.Sound := ⟨.guarded .nil nofun nofun, nofun⟩

/-- A change at a place where a path leads. -/
theorem Sound.changeAt (ht : t.Sound) {f : Option Entry → Option Entry}
    (hf : ∀ child, ∀ c ∈ f child, c.Sound) (hplace : ∀ name ∈ place, Plain name) :
    Sound { t with root := (t.root.change f place).getD t.root } := by
  refine ⟨?_, ht.working⟩
  show Entry.Sound ((t.root.change f place).getD t.root)
  cases hchange : t.root.change f place with
  | none => exact ht.root
  | some e => exact ht.root.change hf hplace e hchange

theorem Sound.put (ht : t.Sound) (hplace : ∀ name ∈ place, Plain name) (he : e.Sound) :
    (t.put place e).Sound := by
  refine ht.changeAt (fun _ c hc => ?_) hplace
  cases hc
  exact he

theorem Sound.makeDirectory (ht : t.Sound) {t' : FileTree} (h : t.makeDirectory path = .ok t') :
    t'.Sound := by
  obtain ⟨place, hplace, h⟩ := exists_of_bind h
  split at h
  · cases h
  · cases h
    exact ht.put (ht.placeOf hplace) (.guarded .nil nofun nofun)

theorem Sound.makeDirectoriesOf (ht : t.Sound) {paths : List String} {t' : FileTree}
    (h : t.makeDirectoriesOf paths = .ok t') : t'.Sound := by
  induction paths generalizing t' with
  | nil => cases h
  | cons path above ih =>
    rw [FileTree.makeDirectoriesOf] at h
    split at h
    · rename_i made hmade
      cases h
      exact ht.makeDirectory hmade
    · obtain ⟨made, habove, h⟩ := exists_of_bind h
      split at h
      · rename_i made' hmade
        cases h
        exact (ih habove).makeDirectory hmade
      · split at h
        · cases h
          exact ih habove
        · cases h
    · split at h
      · cases h
        exact ht
      · cases h

theorem Sound.createFile (ht : t.Sound) {t' : FileTree} (h : t.createFile path = .ok t') :
    t'.Sound := by
  obtain ⟨place, hplace, h⟩ := exists_of_bind h
  split at h
  · cases h
  · cases h
    exact ht.put (ht.placeOf hplace) (.file (some ""))

theorem Sound.remove (ht : t.Sound) (path : String) : (t.remove path).Sound := by
  unfold FileTree.remove
  split
  · rename_i place hplace
    exact ht.changeAt nofun (ht.placeOf hplace)
  · exact ht

theorem Sound.keep (ht : t.Sound) {changed : Except SystemFault FileTree}
    (hchanged : ∀ t', changed = .ok t' → t'.Sound) : ((FileTree.keep changed).run t).2.Sound := by
  cases changed with
  | error fault => exact ht
  | ok t' => exact hchanged t' rfl

/-- **Operations keep trees sound.** -/
theorem Sound.perform (ht : t.Sound) (o : Operation) : ((FileTree.perform o).run t).2.Sound := by
  cases o with
  | makeDirectories path => exact ht.keep fun _ => ht.makeDirectoriesOf
  | createFile path => exact ht.keep fun _ => ht.createFile
  | _ => exact ht

/-- A tree is sound that operations have made of nothing. -/
theorem sound_after (ops : List Operation) :
    (ops.foldl (fun t o => ((FileTree.perform o).run t).2) empty).Sound :=
  List.foldlRecOn ops _ sound_empty fun _ ht o _ => ht.perform o

end FileTree

end Views.Files
