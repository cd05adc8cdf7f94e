import Views.Proofs.Engine.Steady

/-!
# Registering partials

Partials are registered one after the other, so a statement about how far a registration has come
(`T done`, where `done` is what is registered already) that each step carries on and that others do
not break holds of all that is loaded in the end (`registerFiles_meets`). It is used in three ways:
for the partials that the markers of a text refer to (`registerReferenced_safe`), for a scan among
other renders, where files have different names (`ensureScanned_safe`), and for a scan that nothing
interrupts, where of several files with one name the last counts (`ensureScanned_alone`).
-/

set_option autoImplicit false

namespace Views

open Engine

/-! ## One after the other -/

namespace PartialSource

variable {s : PartialSource} {files : Files.FileTree} {I : World → Prop}
  {R G : World → World → Prop}

/-- Reading changes nothing, and a partial that compiles is registered. -/
theorem registerFile_meets {T U : World → Prop} {path : String} {w : World}
    (hfiles : ∀ v, I v → v.files = files) (hrefl : ∀ v, G v v)
    (hstable : ∀ u v, R u v → I v → T u → T v) (hw : T w)
    (hstep : ∀ entry, s.fileAt files path = some entry → ∀ v, I v → T v →
      I (v.define entry.1 entry.2) ∧ G v (v.define entry.1 entry.2) ∧
        U (v.define entry.1 entry.2)) :
    Program.Meets I R G (fun r v => match s.fileAt files path with
      | some _ => r = .ok () ∧ U v
      | none => (∃ err, r = .error err) ∧ T v) (s.registerFile path) w := by
  rw [registerFile, Attempt.bind_eq]
  refine Program.Meets.bind (Program.Meets.request fun v hr hi => ⟨hi, hrefl v, ?_⟩)
  have hv := hstable _ _ hr hi hw
  show Program.Meets I R G _ (Attempt.after _ (readText v.files _)) v
  rw [hfiles v hi, readText]
  cases hread : files.read (Files.join s.root path) with
  | error fault =>
    rw [show s.fileAt files path = none by rw [fileAt, hread]]
    exact ⟨⟨_, rfl⟩, hv⟩
  | ok text =>
    refine Program.Meets.request fun u hu hiu => ?_
    rw [perform_registerPartial]
    cases hc : Template.compile (s.partialName path) text true with
    | error err =>
      rw [show s.fileAt files path = none by simp only [fileAt, hread, hc]]
      exact ⟨hiu, hrefl u, ⟨_, rfl⟩, hstable _ _ hu hiu hv⟩
    | ok t =>
      have hf : s.fileAt files path = some (s.partialName path, t) := by
        simp only [fileAt, hread, hc]
      obtain ⟨h1, h2, h3⟩ := hstep _ hf u hiu (hstable _ _ hu hiu hv)
      rw [hf]
      exact ⟨h1, h2, rfl, h3⟩

/-- A statement about what is registered so far holds of all that is loaded in the end. -/
theorem registerFiles_meets {T : List (String × Template) → World → Prop} {paths : List String}
    (done : List (String × Template)) {w : World} (hfiles : ∀ v, I v → v.files = files)
    (hrefl : ∀ v, G v v) (hstable : ∀ done u v, R u v → I v → T done u → T done v)
    (hw : T done w) (hstep : ∀ done, ∀ entry ∈ s.loaded files paths, ∀ v, I v → T done v →
      I (v.define entry.1 entry.2) ∧ G v (v.define entry.1 entry.2) ∧
        T (done ++ [entry]) (v.define entry.1 entry.2)) :
    (s.registerFiles paths).Meets I R G (fun _ v => T (done ++ s.loaded files paths) v) w := by
  induction paths generalizing done w with
  | nil => rwa [loaded_nil, List.append_nil]
  | cons path rest ih =>
    rw [loaded_cons] at hstep ⊢
    refine Program.Meets.bind ((registerFile_meets (U := fun v => ∃ entry,
      s.fileAt files path = some entry ∧ T (done ++ [entry]) v) hfiles hrefl (hstable done) hw
      fun entry he v hi ht => ?_).mono fun r v hr => ?_)
    · rw [he] at hstep
      obtain ⟨h1, h2, h3⟩ := hstep done entry List.mem_cons_self v hi ht
      exact ⟨h1, h2, entry, he, h3⟩
    · cases he : s.fileAt files path with
      | none =>
        rw [he] at hr
        obtain ⟨⟨err, rfl⟩, ht⟩ := hr
        rwa [List.append_nil]
      | some entry =>
        rw [he] at hr hstep
        obtain ⟨rfl, entry', heq, ht⟩ := hr
        obtain rfl := Option.some.inj heq
        refine Program.Meets.bind ((ih _ ht fun done e hm =>
          hstep done e (List.mem_cons_of_mem _ hm)).mono fun a u hu => ?_)
        rwa [List.append_assoc] at hu

end PartialSource

namespace Setting

variable {c : Setting} {w : World}

/-! ## The partials of markers -/

/-- The partials that the markers of a text refer to are those of the scan, where governed. -/
def Settled (c : Setting) (text : String) : Prop :=
  c.engine.config.caching = false → ∀ entry ∈ c.engine.partials.named c.files text,
    c.governed entry.1 → (c.engine.scanned c.base c.files).get? entry.1 = some entry.2

theorem define_named {text : String} (hs : c.Settled text)
    (hoff : c.engine.config.caching = false) {entry : String × Template}
    (he : entry ∈ c.engine.partials.named c.files text) (hw : c.Steady w) :
    c.Steady (w.define entry.1 entry.2) ∧ c.Later w (w.define entry.1 entry.2) := by
  have hnamed (text' : String) (v : Template)
      (hv : (entry.1, v) ∈ c.engine.partials.named c.files text') : v = entry.2 :=
    PartialSource.named_unique hv he
  refine ⟨hw.define (fun hon => ?_) (fun hg => .inl (hs hoff entry he hg))
    (fun _ hg => hs hoff entry he hg), .define (fun o u hu => ?_) (fun _ => hnamed)
      (hs hoff entry he)⟩
  · rw [hoff] at hon
    cases hon
  · exact held_define_partial hu (named_ne_keyFor he) fun _ => hnamed

theorem registerReferenced_safe {text : String} (hs : c.Settled text) :
    c.Safe (c.engine.registerReferenced text) (fun _ v => c.engine.config.caching = false →
      ∀ entry ∈ c.engine.partials.named c.files text,
        v.registry.templates.get? entry.1 = some entry.2) w := by
  unfold registerReferenced
  split
  · rename_i hon
    exact fun hoff => absurd hon (by simp [hoff])
  rename_i hoff
  have hoff : c.engine.config.caching = false := by simpa using hoff
  split
  · rename_i hen
    have hnamed : c.engine.partials.named c.files text = c.engine.partials.loaded c.files
        ((Markers.partialNames text).map (· ++ c.engine.partials.extname)) := if_pos hen
    rw [hnamed]
    split
    · rename_i hnil
      rw [hnil]
      exact fun _ _ h => absurd h List.not_mem_nil
    · rw [PartialSource.registerNamed, if_pos hen]
      refine Program.Meets.bind (Program.Meets.bind ((PartialSource.registerFiles_meets
        (T := fun done v => ∀ entry ∈ done, entry ∈ c.engine.partials.named c.files text ∧
          v.registry.templates.get? entry.1 = some entry.2) []
        (fun v hv => hv.files) Later.refl ?_ (by simp) ?_).mono fun a v ht _ entry he =>
          (ht entry he).2))
      · exact fun done u v hl _ ht entry he =>
          ⟨(ht entry he).1, hl.named hoff text entry (ht entry he).1 (ht entry he).2⟩
      · intro done entry he v hv ht
        rw [← hnamed] at he
        obtain ⟨h1, h2⟩ := define_named hs hoff he hv
        refine ⟨h1, h2, fun other ho => ?_⟩
        rcases List.mem_append.1 ho with ho | ho
        · exact ⟨(ht other ho).1, h2.named hoff text other (ht other ho).1 (ht other ho).2⟩
        · obtain rfl := List.mem_singleton.1 ho
          exact ⟨he, Table.get?_insert_self ..⟩
  · rename_i hen
    intro _ entry he
    rw [PartialSource.named, if_neg hen] at he
    cases he

/-! ## Scans -/

/-- After a scan every governed name has the template of the scan. -/
theorem Steady.settled (hw : c.Steady w) (h : ∀ entry ∈ c.engine.partials.scan c.files,
    c.governed entry.1 → w.registry.templates.get? entry.1 =
      (c.engine.scanned c.base c.files).get? entry.1) :
    ∀ name, c.governed name →
      w.registry.templates.get? name = (c.engine.scanned c.base c.files).get? name := by
  intro name hg
  rcases hw.partials name hg with hb | ⟨t, ht, -⟩
  · rcases Table.get?_union_cases c.base.templates (c.engine.partials.scan c.files) name with
      ⟨-, hu⟩ | ⟨t, ht, -⟩
    · exact hb.trans hu.symm
    · exact h _ ht hg
  · exact h _ ht hg

/-- A scan, when each of its registrations keeps to what the others expect. -/
theorem ensureScanned_meets {R G : World → World → Prop}
    {T : List (String × Template) → World → Prop} (hw : c.Steady w) (hrefl : ∀ v, G v v)
    (hstore : ∀ v, G v { v with scanned := true })
    (hstable : ∀ done u v, R u v → T done u → T done v)
    (hstart : ∀ v, c.Steady v → v.scanned = false → T [] v)
    (hstep : ∀ done, ∀ entry ∈ c.engine.partials.scan c.files, ∀ v, c.Steady v → T done v →
      c.Steady (v.define entry.1 entry.2) ∧ G v (v.define entry.1 entry.2) ∧
        T (done ++ [entry]) (v.define entry.1 entry.2))
    (hend : ∀ v, T (c.engine.partials.scan c.files) v →
      ∀ entry ∈ c.engine.partials.scan c.files, c.governed entry.1 →
        v.registry.templates.get? entry.1 = (c.engine.scanned c.base c.files).get? entry.1) :
    c.engine.partials.ensureScanned.Meets c.Steady R G (fun _ v => c.Steady v ∧
      ∀ name, c.governed name →
        v.registry.templates.get? name = (c.engine.scanned c.base c.files).get? name) w := by
  unfold PartialSource.ensureScanned PartialSource.registerAll
  split
  · rename_i hen
    refine Program.Meets.bind (Program.Meets.request fun v hr hv => ⟨hv, hrefl v, ?_⟩)
    show Program.Meets _ _ _ _ (if v.scanned = true then _ else _) v
    split
    · rename_i hs
      exact ⟨hv, hv.scanned hs⟩
    · rename_i hs
      have ht := hstart v hv (by simpa using hs)
      refine Program.Meets.bind (Program.Meets.bind
        (Program.Meets.request fun u hu hiu => ⟨hiu, hrefl u, ?_⟩))
      rw [show u.perform (.list c.engine.partials.root c.engine.partials.extname) =
        (c.files.list c.engine.partials.root c.engine.partials.extname, u) from hiu.files ▸ rfl]
      cases hl : c.files.list c.engine.partials.root c.engine.partials.extname with
      | error err =>
        have hscan : c.engine.partials.scan c.files = [] := PartialSource.scan_of_list_error hen hl
        exact ⟨hiu, hiu.settled (by simp [hscan])⟩
      | ok paths =>
        have hscan : c.engine.partials.scan c.files = c.engine.partials.loaded c.files paths :=
          PartialSource.scan_of_list hen hl
        refine Program.Meets.bind ((PartialSource.registerFiles_meets
          (T := fun done v => c.Steady v ∧ T done v) [] (fun v hv => hv.files) hrefl
          (fun done u v hr hv ht => ⟨hv, hstable done u v hr ht.2⟩)
          ⟨hiu, hstable _ _ _ hu ht⟩ fun done entry he v hv ht => ?_).mono fun a x hx => ?_)
        · obtain ⟨h1, h2, h3⟩ := hstep done entry (hscan ▸ he) v hv ht.2
          exact ⟨h1, h2, h1, h3⟩
        · rw [List.nil_append, ← hscan] at hx
          obtain ⟨n, all⟩ := a
          cases all with
          | false => exact ⟨hx.1, hx.1.settled (hend x hx.2)⟩
          | true =>
            intro y hy hiy
            have hset := hiy.settled (hend y (hstable _ _ _ hy hx.2))
            have hys : c.Steady { y with scanned := true } := { hiy with scanned := fun _ => hset }
            exact ⟨hys, hstore y, hys, hset⟩
  · rename_i hen
    have hscan : c.engine.partials.scan c.files = [] := PartialSource.scan_of_disabled hen
    exact ⟨hw, hw.settled (by simp [hscan])⟩

/-- A partial of a scan has the key of nothing that is held. -/
theorem held_define_scan {r : Registry} {o : Origin} {t : Compiled} {entry : String × Template}
    (h : c.engine.Held c.files r o t) (hon : c.engine.config.caching = true)
    (hkey : ¬ KeyLike entry.1) : c.engine.Held c.files (r.define entry.1 entry.2) o t :=
  held_define_partial h (fun o i heq => hkey (heq ▸ c.engine.keyLike_keyFor o i))
    fun hoff => absurd hon (by simp [hoff])

/-- **A scan among other renders**, of files with different names. -/
theorem ensureScanned_safe (hw : c.Steady w) (hon : c.engine.config.caching = true)
    (hkeys : ∀ entry ∈ c.engine.partials.scan c.files, ¬ KeyLike entry.1)
    (hnames : ((c.engine.partials.listed c.files).map c.engine.partials.partialName).Nodup) :
    c.Safe c.engine.partials.ensureScanned (fun _ v => c.Steady v ∧ ∀ name, c.governed name →
      v.registry.templates.get? name = (c.engine.scanned c.base c.files).get? name) w := by
  have hset (entry) (he : entry ∈ c.engine.partials.scan c.files) :
      (c.engine.scanned c.base c.files).get? entry.1 = some entry.2 :=
    Table.get?_union_of_unique he fun u hu => PartialSource.loaded_unique hnames hu he
  refine ensureScanned_meets (T := fun done v => ∀ entry ∈ done, c.governed entry.1 →
    v.registry.templates.get? entry.1 = (c.engine.scanned c.base c.files).get? entry.1) hw
    Later.refl (fun v => .of_registry rfl fun _ h => h)
    ?_ (by simp) ?_ (fun v ht => ht)
  · exact fun done u v hl ht entry he hg => hl.settled _ hg (ht entry he hg)
  · intro done entry he v hv ht
    have hheld := fun o u (hu : c.engine.Held c.files v.registry o u) =>
      held_define_scan hu hon (hkeys entry he)
    have hl : c.Later v (v.define entry.1 entry.2) :=
      .define hheld (fun hoff => absurd hon (by simp [hoff])) fun _ => hset entry he
    refine ⟨hv.define (fun _ => hheld) (fun _ => .inr he) (fun _ _ => hset entry he), hl, ?_⟩
    intro other ho hg
    rcases List.mem_append.1 ho with ho | ho
    · exact hl.settled _ hg (ht other ho hg)
    · obtain rfl := List.mem_singleton.1 ho
      exact (Table.get?_insert_self ..).trans (hset other he).symm

/-- **A scan that nothing interrupts.** Of several files with one name the last counts, also when a
scan is made again because it failed before. -/
theorem ensureScanned_alone (hw : c.Steady w) (hkeys : c.engine.config.caching = true →
      ∀ entry ∈ c.engine.partials.scan c.files, ¬ KeyLike entry.1) :
    c.engine.partials.ensureScanned.Meets c.Steady Eq (fun _ _ => True) (fun _ v => c.Steady v ∧
      ∀ name, c.governed name →
        v.registry.templates.get? name = (c.engine.scanned c.base c.files).get? name) w := by
  refine ensureScanned_meets (T := fun done v => v.scanned = false ∧ ∀ entry ∈ done,
    v.registry.templates.get? entry.1 = (Table.union c.base.templates done).get? entry.1) hw
    (fun _ => trivial) (fun _ => trivial) (fun done u v hr ht => hr ▸ ht)
    (fun v _ hs => ⟨hs, by simp⟩) ?_ (fun v ht entry he _ => ht.2 entry he)
  rintro done entry he v hv ⟨hs, ht⟩
  refine ⟨hv.define (fun hon o u hu => held_define_scan hu hon (hkeys hon entry he))
    (fun _ => .inr he) (fun hs' => absurd hs' (by simp [hs])), trivial, hs, ?_⟩
  intro other ho
  show (v.registry.templates.insert _ _).get? _ = _
  rw [Table.union, List.foldl_append]
  show _ = ((Table.union c.base.templates done).insert entry.1 entry.2).get? other.1
  rw [Table.get?_insert, Table.get?_insert]
  split
  · rfl
  · rename_i hne
    rcases List.mem_append.1 ho with ho | ho
    · exact ht other ho
    · exact absurd (List.mem_singleton.1 ho ▸ rfl) hne

end Setting

end Views
