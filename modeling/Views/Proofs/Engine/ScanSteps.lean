import Views.Proofs.Engine.Loading
import Views.Proofs.Program.Trace

/-!
# The steps of a scan

A scan lists the directory, registers one file after the other, and says so when all are registered
(`PartialSource.Scan`). Other programs may do anything in between, but among its own steps those of
a scan have no gaps. Each program of the engine says that a scan is finished only right behind the
steps of one that is, lists the directory once at most, and executes something only if it has seen
to the partials (`PartialSource.Seen`); this is the rule `PartialSource.Scans`, which a render keeps
to (`Engine.answer_scans`).
-/

set_option autoImplicit false

namespace Views

open Program

/-! ## Listings -/

/-- What a step lists. -/
def Step.listed? : Step → Option (Except ViewError (List String))
  | ⟨.list _ _, listed⟩ => some listed
  | _ => none

/-- What some steps list, in order. -/
def listings (steps : List Step) : List (Except ViewError (List String)) :=
  steps.filterMap Step.listed?

@[simp] theorem listings_append (a b : List Step) :
    listings (a ++ b) = listings a ++ listings b := List.filterMap_append

/-- Does not list a directory. -/
def Request.Unlisting : Request → Prop
  | .list _ _ => False
  | _ => True

theorem listings_of_unlisting {steps : List Step} (h : ∀ step ∈ steps, step.1.Unlisting) :
    listings steps = [] := by
  refine List.filterMap_eq_nil_iff.2 fun step hm => ?_
  obtain ⟨r, answer⟩ := step
  have hr := h _ hm
  cases r with
  | list root ending => exact hr.elim
  | _ => rfl

namespace PartialSource

variable (s : PartialSource)

/-! ## Scans -/

/-- The steps that register the files of a list. -/
inductive Registered : List String → List Step → Prop
  | nil : Registered [] []
  | cons {path source : String} {rest : List String} {steps : List Step}
      (h : Registered rest steps) :
      Registered (path :: rest) (⟨.read (Files.join s.root path), .ok source⟩ ::
        ⟨.registerPartial (s.partialName path) source, .ok ()⟩ :: steps)

/-- The steps at a file that gives no partial. -/
inductive Refused (path : String) : List Step → Prop
  | unread (err : ViewError) : Refused path [⟨.read (Files.join s.root path), .error err⟩]
  | broken (source : String) (err : ViewError) :
      Refused path [⟨.read (Files.join s.root path), .ok source⟩,
        ⟨.registerPartial (s.partialName path) source, .error err⟩]

/-- The steps that register the files of a list up to the first that gives no partial, and whether
there is none. -/
inductive Pass : List String → Bool → List Step → Prop
  | all {paths : List String} {steps : List Step} (h : s.Registered paths steps) :
      Pass paths true steps
  | stopped {front rest : List String} {path : String} {steps last : List Step}
      (h : s.Registered front steps) (hl : s.Refused path last) :
      Pass (front ++ path :: rest) false (steps ++ last)

/-- The steps of a scan, and whether it is finished. -/
inductive Scan : Bool → List Step → Prop
  | unlisted (err : ViewError) : Scan false [⟨.list s.root s.extname, .error err⟩]
  | stopped {paths : List String} {steps : List Step} (h : s.Pass paths false steps) :
      Scan false (⟨.list s.root s.extname, .ok paths⟩ :: steps)
  | finished {paths : List String} {steps : List Step} (h : s.Registered paths steps) :
      Scan true (⟨.list s.root s.extname, .ok paths⟩ :: (steps ++ [⟨.storeScan, ()⟩]))

/-- Among some steps are those of a finished scan that has listed these files. -/
def Finished (paths : List String) (steps : List Step) : Prop :=
  ∃ registered, s.Registered paths registered ∧
    (⟨.list s.root s.extname, .ok paths⟩ :: (registered ++ [⟨.storeScan, ()⟩]) : List Step) <:+:
      steps

/-- The steps of seeing to the partials: the directory was scanned before, or here is a scan. -/
inductive Ensures : List Step → Prop
  | recalled : Ensures [⟨.recallScan, true⟩]
  | scanned {finished : Bool} {scan : List Step} (h : s.Scan finished scan) :
      Ensures (⟨.recallScan, false⟩ :: scan)

/-- Among some steps are those of seeing to the partials. -/
def Seen (steps : List Step) : Prop := ∃ ensuring, s.Ensures ensuring ∧ ensuring <:+: steps

/-- When a program may ask for what has to do with scans. -/
def Scans (past : List Step) : Request → Prop
  | .list root ending => root = s.root ∧ ending = s.extname ∧ listings past = []
  | .storeScan => ∃ paths registered, s.Registered paths registered ∧
      (⟨.list s.root s.extname, .ok paths⟩ :: registered : List Step) <:+ past
  | .execute _ _ _ => s.enabled = true → s.Seen past
  | _ => True

variable {s} {paths : List String} {steps more past : List Step} {finished all : Bool}

theorem Pass.cons {path source : String} (h : s.Pass paths all steps) :
    s.Pass (path :: paths) all (⟨.read (Files.join s.root path), .ok source⟩ ::
      ⟨.registerPartial (s.partialName path) source, .ok ()⟩ :: steps) := by
  cases h with
  | all h => exact .all h.cons
  | @stopped front rest path' steps last h hl =>
    exact (Pass.stopped h.cons hl : s.Pass ((path :: front) ++ path' :: rest) false _)

/-- The first file gives no partial. -/
theorem Pass.of_refused {path : String} (h : s.Refused path steps) (rest : List String) :
    s.Pass (path :: rest) false steps :=
  (Pass.stopped .nil h : s.Pass ([] ++ path :: rest) false ([] ++ steps))

theorem Registered.unlisting (h : s.Registered paths steps) :
    ∀ step ∈ steps, step.1.Unlisting := by
  induction h with
  | nil => exact nofun
  | cons h ih => exact List.forall_mem_cons.2 ⟨trivial, List.forall_mem_cons.2 ⟨trivial, ih⟩⟩

theorem Refused.unlisting {path : String} (h : s.Refused path steps) :
    ∀ step ∈ steps, step.1.Unlisting := by
  cases h <;> simp [Request.Unlisting]

/-- A scan lists the directory once. -/
theorem Scan.listings_eq (h : s.Scan finished steps) : ∃ listed, listings steps = [listed] := by
  have hrest (listed : Except ViewError (List String)) {rest : List Step}
      (hr : ∀ step ∈ rest, step.1.Unlisting) :
      listings (⟨.list s.root s.extname, listed⟩ :: rest) = [listed] :=
    congrArg (listed :: ·) (listings_of_unlisting hr)
  cases h with
  | unlisted err => exact ⟨_, hrest _ nofun⟩
  | stopped h =>
    cases h with
    | stopped h hl =>
      exact ⟨_, hrest _ fun step hm => (List.mem_append.1 hm).elim (h.unlisting _) (hl.unlisting _)⟩
  | finished h =>
    refine ⟨_, hrest _ fun step hm => (List.mem_append.1 hm).elim (h.unlisting _) fun hm => ?_⟩
    obtain rfl := List.mem_singleton.1 hm
    trivial

theorem Scan.listed (h : s.Scan true steps) (hi : steps <:+: more) :
    ∃ paths, s.Finished paths more := by
  cases h with
  | finished h => exact ⟨_, _, h, hi⟩

/-- A scan is finished when it says so. -/
theorem Finished.of_suffix (h : s.Registered paths steps)
    (hp : (⟨.list s.root s.extname, .ok paths⟩ :: steps : List Step) <:+ past) :
    s.Finished paths (past ++ [⟨.storeScan, ()⟩]) := by
  obtain ⟨front, rfl⟩ := hp
  exact ⟨steps, h, front, [], by simp⟩

theorem Finished.append (h : s.Finished paths steps) (more : List Step) :
    s.Finished paths (steps ++ more) := by
  obtain ⟨registered, hr, hi⟩ := h
  exact ⟨registered, hr, hi.trans (List.prefix_append _ _).isInfix⟩

theorem Seen.append (h : s.Seen steps) (more : List Step) : s.Seen (steps ++ more) :=
  h.imp fun _ ⟨he, hi⟩ => ⟨he, hi.trans (List.prefix_append _ _).isInfix⟩

/-- What keeps to the rule lists the directory once at most. -/
theorem Scans.listings_le {r : Request} {answer : r.Answer} (h : s.Scans past r)
    (hp : (listings past).length ≤ 1) : (listings (past ++ [⟨r, answer⟩])).length ≤ 1 := by
  rw [listings_append, List.length_append]
  cases r with
  | list root ending =>
    obtain ⟨-, -, hnone⟩ := h
    rw [hnone]
    exact Nat.le_refl 1
  | _ => exact hp

/-- Each file of a finished scan was registered. -/
theorem Registered.mem {path : String} (h : s.Registered paths steps) (hp : path ∈ paths) :
    ∃ source, (⟨.registerPartial (s.partialName path) source, .ok ()⟩ : Step) ∈ steps := by
  induction h with
  | nil => cases hp
  | @cons first source rest steps h ih =>
    rcases List.mem_cons.1 hp with rfl | hp
    · exact ⟨source, List.mem_cons_of_mem _ List.mem_cons_self⟩
    · exact (ih hp).imp fun _ hm => List.mem_cons_of_mem _ (List.mem_cons_of_mem _ hm)

/-! ## Programs -/

section

variable {A : (r : Request) → r.Answer → Prop}

theorem registerFiles_scans (paths : List String) (past : List Step) :
    (s.registerFiles paths).Keeps A s.Scans
      (fun r past' => ∃ steps, past' = past ++ steps ∧ s.Pass paths r.2 steps) past := by
  induction paths generalizing past with
  | nil => exact ⟨[], (List.append_nil _).symm, .all .nil⟩
  | cons path rest ih =>
    refine ⟨trivial, fun text _ => ?_⟩
    cases text with
    | error err => exact ⟨_, rfl, .of_refused (.unread err) rest⟩
    | ok source =>
      refine ⟨trivial, fun registered _ => ?_⟩
      cases registered with
      | error err =>
        exact ⟨_, (List.append_cons ..).symm, .of_refused (.broken source err) rest⟩
      | ok _ =>
        refine Keeps.bind (p := s.registerFiles rest) ((ih _).mono fun r past' hr => ?_)
        obtain ⟨steps, rfl, hpass⟩ := hr
        exact ⟨_, by rw [← List.append_cons, ← List.append_cons], hpass.cons⟩

theorem registerAll_scans (h : listings past = []) : s.registerAll.Keeps A s.Scans
    (fun _ past' => s.enabled = true →
      ∃ finished scan, s.Scan finished scan ∧ past' = past ++ scan) past := by
  unfold registerAll
  split
  · refine ⟨⟨rfl, rfl, h⟩, fun listed _ => ?_⟩
    cases listed with
    | error err => exact fun _ => ⟨false, _, .unlisted err, rfl⟩
    | ok paths =>
      refine Keeps.bind (p := s.registerFiles paths)
        ((registerFiles_scans paths _).mono fun r past' hr => ?_)
      obtain ⟨n, all⟩ := r
      obtain ⟨steps, rfl, hpass⟩ := hr
      rw [← List.append_cons]
      cases all with
      | false => exact fun _ => ⟨false, _, .stopped hpass, rfl⟩
      | true =>
        cases hpass with
        | all hr =>
          refine ⟨⟨paths, steps, hr, List.suffix_append ..⟩, fun _ _ _ => ?_⟩
          exact ⟨true, _, .finished hr, List.append_assoc ..⟩
  · rename_i hoff
    exact fun h => absurd h hoff

theorem ensureScanned_scans (h : listings past = []) : s.ensureScanned.Keeps A s.Scans
    (fun _ past' => s.enabled = true → ∃ steps, s.Ensures steps ∧ past' = past ++ steps) past := by
  unfold ensureScanned
  split
  · rename_i hon
    refine ⟨trivial, fun scanned _ => ?_⟩
    cases scanned with
    | true => exact fun _ => ⟨_, .recalled, rfl⟩
    | false =>
      have hp : listings (past ++ [⟨.recallScan, false⟩]) = [] := by
        rw [listings_append, h]
        rfl
      refine Keeps.bind (p := s.registerAll) ((registerAll_scans hp).mono fun n past' hr => ?_)
      obtain ⟨finished, scan, hs, rfl⟩ := hr hon
      exact fun _ => ⟨_, .scanned hs, List.append_assoc ..⟩
  · rename_i hoff
    exact fun h => absurd h hoff

end

end PartialSource

/-! ## Renders -/

namespace Engine

variable {e : Engine} {A : (r : Request) → r.Answer → Prop}

theorem looking_free {r : Request} {name : String} (h : e.resolver.Looking name r) :
    Free e.partials.Scans (fun past => listings past = []) r := by
  intro past hp
  cases h with
  | _ => exact ⟨trivial, fun _ => (listings_append ..).trans (by rw [hp]; rfl)⟩

/-- A render that has seen to the partials has nothing more to do with them. -/
theorem rendering_free {r : Request} {n : String} (h : e.Assembling n r ∨ Executing r) :
    Free e.partials.Scans (fun past => e.partials.enabled = true → e.partials.Seen past) r := by
  refine fun past hp => ⟨?_, fun _ hon => (hp hon).append _⟩
  cases h with
  | inr h =>
    cases h
    exact hp
  | inl h =>
    cases h with
    | loading h =>
      cases h with
      | readying h =>
        cases h with
        | registering _ h => cases h <;> trivial
        | number => trivial
      | compile i => trivial
    | _ => trivial

/-- **A render sees to the partials before it executes anything.** -/
theorem answer_scans (q : Query) :
    (e.answer q).Keeps A e.partials.Scans (fun _ _ => True) [] := by
  rw [answer_eq]
  refine .bind (((e.resolver.resolve_asks _).keeps (fun _ => looking_free) rfl).mono
    fun path? past hp => ?_)
  cases path? with
  | none => trivial
  | some path =>
    refine .bind ((PartialSource.ensureScanned_scans hp).mono fun _ past' hr => ?_)
    have hseen : e.partials.enabled = true → e.partials.Seen past' := fun hon => by
      obtain ⟨steps, hs, rfl⟩ := hr hon
      exact ⟨steps, hs, (List.suffix_append past steps).isInfix⟩
    refine (Asks.keeps ?_ (fun r => rendering_free (n := q.logical)) hseen).mono
      fun _ _ _ => trivial
    exact .attempt ((e.entryFor_asks _ _).mono fun _ => .inl) fun entry => e.resume_asks q entry

end Engine

end Views
