import Mathlib.Data.List.ReduceOption
import Views.Proofs.Table
import Views.Scope.Handles

/-!
# Blocks behind shared handles

What a handle answers is determined by the operations so far: a family of handles is a table of
queues, one for each name, and nothing else. The `queue` of a name holds the fragments that were
appended through any handle of the family since the name was last consumed through one
(`shared_blocks`). The proof follows the operations one by one (`Tracks.perform`).
-/

set_option autoImplicit false

namespace Views.Scope

/-- An operation on scopes. -/
inductive Operation where
  | fresh (data : Fields)
  | clone (handle : Nat)
  | append (handle : Nat) (name fragment : String)
  | consume (handle : Nat) (name : String)
  | pending (handle : Nat)

namespace Operation

/-- The handle that an operation uses. -/
def handle? : Operation → Option Nat
  | fresh _ => none
  | clone handle | append handle _ _ | consume handle _ | pending handle => some handle

/-- Whether an operation gives a new handle. -/
def gives : Operation → Bool
  | fresh _ | clone _ => true
  | _ => false

/-- What an operation does to a block, if it does something to it: a fragment is appended, or (as
`none`) the block is consumed. `families` are those of the handles. -/
def effect? (families : List Nat) (family : Nat) (name : String) :
    Operation → Option (Option String)
  | append handle n fragment =>
    if families[handle]? = some family ∧ n = name then some (some fragment) else none
  | consume handle n => if families[handle]? = some family ∧ n = name then some none else none
  | _ => none

end Operation

/-- The families of the handles that some operations give. A family goes by the number of its first
handle; a clone is in the family of its original. -/
def families (ops : List Operation) : List Nat :=
  ops.foldl (fun families op =>
    match op with
    | .fresh _ => families ++ [families.length]
    | .clone handle => families ++ families[handle]?.toList
    | _ => families) []

/-- The operations use only handles that were given before. -/
inductive Usage : List Operation → Prop
  | nil : Usage []
  | concat {ops : List Operation} {op : Operation} (h : Usage ops)
      (hop : ∀ handle ∈ op.handle?, handle < (families ops).length) : Usage (ops ++ [op])

/-- The fragments that were appended since the last time that all were consumed. -/
def sinceConsumed (effects : List (Option String)) : List String :=
  (effects.reverse.takeWhile Option.isSome).reduceOption.reverse

/-- The fragments of a name that a family holds after some operations. -/
def queue (ops : List Operation) (family : Nat) (name : String) : List String :=
  sinceConsumed (ops.filterMap (·.effect? (families ops) family name))

/-- Performs an operation. -/
def Handles.perform (t : Handles) : Operation → Handles
  | .fresh data => (t.fresh data).2
  | .clone handle => (t.clone handle).2
  | .append handle name fragment => t.append handle name fragment
  | .consume handle name => (t.consume handle name).2
  | .pending _ => t

/-- The scopes after some operations. -/
def Handles.after (ops : List Operation) : Handles := ops.foldl perform ⟨[], []⟩

/-! ## Families -/

variable {ops : List Operation} {op : Operation}

theorem families_concat (ops : List Operation) (op : Operation) :
    families (ops ++ [op]) = match op with
      | .fresh _ => families ops ++ [(families ops).length]
      | .clone handle => families ops ++ (families ops)[handle]?.toList
      | _ => families ops := by
  simp only [families, List.foldl_append, List.foldl_cons, List.foldl_nil]

/-- A handle stays in its family. -/
theorem families_concat_of_lt {handle : Nat} (h : handle < (families ops).length) :
    (families (ops ++ [op]))[handle]? = (families ops)[handle]? := by
  rw [families_concat]
  cases op <;> simp only [List.getElem?_append_left h]

theorem Usage.lt_families (h : Usage ops) : ∀ op ∈ ops, ∀ handle ∈ op.handle?,
    handle < (families ops).length := by
  induction h with
  | nil => exact fun _ hm => absurd hm List.not_mem_nil
  | @concat ops op h hop ih =>
    have hle : (families ops).length ≤ (families (ops ++ [op])).length := by
      rw [families_concat]
      cases op <;> simp
    intro op' hm handle hh
    rcases List.mem_append.1 hm with hm | hm
    · exact Nat.lt_of_lt_of_le (ih op' hm handle hh) hle
    · obtain rfl := List.mem_singleton.1 hm
      exact Nat.lt_of_lt_of_le (hop handle hh) hle

theorem effect?_congr {fs fs' : List Nat} (h : ∀ handle ∈ op.handle?, fs'[handle]? = fs[handle]?)
    (family : Nat) (name : String) : op.effect? fs' family name = op.effect? fs family name := by
  cases op with
  | append handle n fragment => simp only [Operation.effect?, h handle rfl]
  | consume handle n => simp only [Operation.effect?, h handle rfl]
  | _ => rfl

/-! ## Queues -/

theorem sinceConsumed_concat_some (effects : List (Option String)) (fragment : String) :
    sinceConsumed (effects ++ [some fragment]) = sinceConsumed effects ++ [fragment] := by
  simp [sinceConsumed]

theorem sinceConsumed_concat_none (effects : List (Option String)) :
    sinceConsumed (effects ++ [none]) = [] := by
  simp [sinceConsumed]

/-- The fragments of a block after something was done to it. -/
def effected (fragments : List String) : Option (Option String) → List String
  | some (some fragment) => fragments ++ [fragment]
  | some none => []
  | none => fragments

theorem queue_concat (h : Usage ops) (hop : ∀ handle ∈ op.handle?, handle < (families ops).length)
    (family : Nat) (name : String) :
    queue (ops ++ [op]) family name =
      effected (queue ops family name) (op.effect? (families ops) family name) := by
  have hops : ops.filterMap (·.effect? (families (ops ++ [op])) family name) =
      ops.filterMap (·.effect? (families ops) family name) :=
    List.filterMap_congr fun op' hm => effect?_congr (fun handle hh =>
      families_concat_of_lt (h.lt_families op' hm handle hh)) family name
  have hlast : op.effect? (families (ops ++ [op])) family name =
      op.effect? (families ops) family name :=
    effect?_congr (fun handle hh => families_concat_of_lt (hop handle hh)) family name
  rw [queue, List.filterMap_append, hops, List.filterMap_cons, hlast]
  cases op.effect? (families ops) family name with
  | none => simp [effected, queue]
  | some effect =>
    cases effect with
    | none => exact sinceConsumed_concat_none _
    | some fragment => exact sinceConsumed_concat_some _ fragment

/-- A family that is not there yet holds nothing. -/
theorem queue_of_notMem {family : Nat} (h : family ∉ families ops) (name : String) :
    queue ops family name = [] := by
  have hnone : ops.filterMap (·.effect? (families ops) family name) = [] := by
    refine List.filterMap_eq_nil_iff.2 fun op _ => ?_
    have hne (handle : Nat) : (families ops)[handle]? ≠ some family :=
      fun he => h (List.mem_of_getElem? he)
    cases op <;> simp [Operation.effect?, hne]
  rw [queue, hnone]
  rfl

/-! ## One operation after the other -/

/-- The scopes hold what the operations so far say. -/
structure Tracks (ops : List Operation) (t : Handles) : Prop where
  handles : families ops = t.handles.map fun i => t.handles.idxOf i
  started : ∀ i ∈ t.handles, i < t.families.length
  ordered : ∀ s ∈ t.families, s.blocks.Ordered
  fragments : ∀ i ∈ t.handles, ∀ s, t.families[i]? = some s →
    ∀ name, s.fragments name = queue ops (t.handles.idxOf i) name
  data : ∀ i ∈ t.handles, ∀ s, t.families[i]? = some s →
    (ops.filter Operation.gives)[t.handles.idxOf i]? = some (.fresh s.data)

theorem Usage.length_gives (h : Usage ops) :
    (ops.filter Operation.gives).length = (families ops).length := by
  induction h with
  | nil => rfl
  | @concat ops op h hop ih =>
    rw [List.filter_append, List.length_append, ih, families_concat]
    cases op with
    | clone handle =>
      have hlt := hop handle rfl
      simp [List.filter, Operation.gives, hlt]
    | _ => simp [List.filter, Operation.gives]

namespace Tracks

variable {t : Handles} {handle i : Nat}

theorem length_handles (h : Tracks ops t) : t.handles.length = (families ops).length := by
  rw [h.handles, List.length_map]

theorem getElem?_families (h : Tracks ops t) (hi : t.handles[handle]? = some i) :
    (families ops)[handle]? = some (t.handles.idxOf i) := by
  rw [h.handles, List.getElem?_map, hi]
  rfl

/-- An operation that changes a scope through a handle. -/
theorem modify (h : Tracks ops t) (hu : Usage ops) (hop : op.handle? = some handle)
    (hgives : op.gives = false) (hi : t.handles[handle]? = some i) {change : Scope → Scope}
    (hordered : ∀ s : Scope, s.blocks.Ordered → (change s).blocks.Ordered)
    (hdata : ∀ s, (change s).data = s.data)
    (hfragments : ∀ s name, (change s).fragments name =
      effected (s.fragments name) (op.effect? (families ops) (t.handles.idxOf i) name))
    (hother : ∀ family name, family ≠ t.handles.idxOf i →
      op.effect? (families ops) family name = none) :
    Tracks (ops ++ [op]) (t.modify handle change) := by
  have hmodify : t.modify handle change = { t with families := t.families.modify i change } := by
    simp only [Handles.modify, hi]
  have hlt : ∀ other ∈ op.handle?, other < (families ops).length := by
    rintro other ho
    obtain rfl := Option.some.inj (hop.symm.trans ho)
    exact (List.getElem?_eq_some_iff.1 (h.getElem?_families hi)).1
  have hfamilies : families (ops ++ [op]) = families ops := by
    rw [families_concat]
    cases op <;> first | rfl | cases hgives
  rw [hmodify]
  constructor
  case handles => rw [hfamilies, h.handles]
  case started => simpa using h.started
  case ordered =>
    intro s hs
    obtain ⟨j, hj⟩ := List.mem_iff_getElem?.1 hs
    rw [List.getElem?_modify] at hj
    obtain ⟨s', hs', rfl⟩ := Option.map_eq_some_iff.1 hj
    have hs' := h.ordered s' (List.mem_of_getElem? hs')
    split
    · exact hordered s' hs'
    · exact hs'
  case fragments =>
    intro j hj s hs name
    rw [List.getElem?_modify] at hs
    obtain ⟨s', hs', rfl⟩ := Option.map_eq_some_iff.1 hs
    rw [queue_concat hu hlt]
    split
    · rename_i hij
      subst hij
      rw [hfragments, h.fragments i hj s' hs']
    · rename_i hij
      have hne : t.handles.idxOf j ≠ t.handles.idxOf i :=
        fun he => hij ((List.idxOf_inj hj).1 he).symm
      rw [hother _ name hne, h.fragments j hj s' hs']
      rfl
  case data =>
    intro j hj s hs
    rw [List.getElem?_modify] at hs
    obtain ⟨s', hs', rfl⟩ := Option.map_eq_some_iff.1 hs
    have hd := h.data j hj s' hs'
    rw [List.filter_append, List.filter_cons_of_neg (by simp [hgives]), List.filter_nil,
      List.append_nil, hd]
    split <;> simp [hdata]

theorem pending (h : Tracks ops t) (hu : Usage ops) (hlt : handle < (families ops).length) :
    Tracks (ops ++ [.pending handle]) t := by
  have hlt : ∀ other ∈ (Operation.pending handle).handle?, other < (families ops).length := by
    rintro other ⟨⟩
    exact hlt
  refine ⟨?_, h.started, h.ordered, fun i hi s hs name => ?_, fun i hi s hs => ?_⟩
  · rw [families_concat, h.handles]
  · rw [queue_concat hu hlt, h.fragments i hi s hs]
    rfl
  · rw [List.filter_append, List.filter_cons_of_neg (by simp [Operation.gives]), List.filter_nil,
      List.append_nil, h.data i hi s hs]

/-- A new handle leaves what the others see. -/
theorem give (h : Tracks ops t) (hu : Usage ops)
    (hop : ∀ handle ∈ op.handle?, handle < (families ops).length) (hgives : op.gives = true)
    {s : Scope} (hi : i ∈ t.handles) (hs : t.families[i]? = some s) :
    (∀ name, s.fragments name = queue (ops ++ [op]) (t.handles.idxOf i) name) ∧
      ((ops ++ [op]).filter Operation.gives)[t.handles.idxOf i]? = some (.fresh s.data) := by
  refine ⟨fun name => ?_, ?_⟩
  · rw [queue_concat hu hop, h.fragments i hi s hs]
    cases op <;> first | rfl | cases hgives
  · have hlt : t.handles.idxOf i < (ops.filter Operation.gives).length := by
      rw [hu.length_gives, ← h.length_handles]
      exact List.idxOf_lt_length_iff.2 hi
    rw [List.filter_append, List.getElem?_append_left hlt, h.data i hi s hs]

theorem clone (h : Tracks ops t) (hu : Usage ops) (hlt : handle < (families ops).length) :
    Tracks (ops ++ [.clone handle]) (t.clone handle).2 := by
  have hlt' : ∀ other ∈ (Operation.clone handle).handle?, other < (families ops).length := by
    rintro other ⟨⟩
    exact hlt
  obtain ⟨i, hi⟩ : ∃ i, t.handles[handle]? = some i :=
    ⟨_, List.getElem?_eq_getElem (h.length_handles ▸ hlt)⟩
  have hmem : i ∈ t.handles := List.mem_of_getElem? hi
  have hclone : (t.clone handle).2 = { t with handles := t.handles ++ [i] } := by
    simp only [Handles.clone, hi]
  have hmem' {j : Nat} (hj : j ∈ t.handles ++ [i]) : j ∈ t.handles := by
    rcases List.mem_append.1 hj with hj | hj
    · exact hj
    · exact List.mem_singleton.1 hj ▸ hmem
  have hindex {j : Nat} (hj : j ∈ t.handles) :
      (t.handles ++ [i]).idxOf j = t.handles.idxOf j := List.idxOf_append_of_mem hj
  rw [hclone]
  constructor
  case handles =>
    rw [families_concat]
    simp only [h.getElem?_families hi, Option.toList_some, List.map_append, List.map_cons,
      List.map_nil, hindex hmem]
    rw [h.handles, List.map_congr_left fun j hj => hindex hj]
  case started => exact fun j hj => h.started j (hmem' hj)
  case ordered => exact h.ordered
  case fragments =>
    intro j hj s hs
    rw [hindex (hmem' hj)]
    exact (h.give hu hlt' rfl (hmem' hj) hs).1
  case data =>
    intro j hj s hs
    rw [hindex (hmem' hj)]
    exact (h.give hu hlt' rfl (hmem' hj) hs).2

theorem fresh (h : Tracks ops t) (hu : Usage ops) (data : Fields) :
    Tracks (ops ++ [.fresh data]) (t.fresh data).2 := by
  have hlt : ∀ handle ∈ (Operation.fresh data).handle?, handle < (families ops).length := nofun
  have hnew : t.families.length ∉ t.handles := fun hm => Nat.lt_irrefl _ (h.started _ hm)
  have hindex {i : Nat} (hi : i ∈ t.handles) :
      (t.handles ++ [t.families.length]).idxOf i = t.handles.idxOf i := List.idxOf_append_of_mem hi
  have hindex' : (t.handles ++ [t.families.length]).idxOf t.families.length = t.handles.length := by
    rw [List.idxOf_append_of_notMem hnew]
    simp
  -- The family of the new handle is a new one.
  have hnone : t.handles.length ∉ families ops := by
    rw [h.handles]
    intro hm
    obtain ⟨i, hi, he⟩ := List.mem_map.1 hm
    exact Nat.lt_irrefl _ (he ▸ List.idxOf_lt_length_iff.2 hi)
  -- A handle of the new table has an old scope, or is the new handle and has the new one.
  have hcases {i : Nat} {s : Scope} (hi : i ∈ t.handles ++ [t.families.length])
      (hs : (t.families ++ [withData data])[i]? = some s) :
      i ∈ t.handles ∧ t.families[i]? = some s ∨ i = t.families.length ∧ s = withData data := by
    rcases List.mem_append.1 hi with hi | hi
    · exact .inl ⟨hi, List.getElem?_append_left (h.started i hi) ▸ hs⟩
    · obtain rfl := List.mem_singleton.1 hi
      rw [List.getElem?_concat_length] at hs
      exact .inr ⟨rfl, (Option.some.inj hs).symm⟩
  have hfresh : (t.fresh data).2 =
      ⟨t.families ++ [withData data], t.handles ++ [t.families.length]⟩ := rfl
  rw [hfresh]
  constructor
  case handles =>
    rw [families_concat]
    simp only [List.map_append, List.map_cons, List.map_nil, hindex']
    rw [← h.length_handles, h.handles, List.map_congr_left fun i hi => hindex hi]
  case started =>
    intro i hi
    rw [List.length_append, List.length_singleton]
    rcases List.mem_append.1 hi with hi | hi
    · exact Nat.lt_succ_of_lt (h.started i hi)
    · exact List.mem_singleton.1 hi ▸ Nat.lt_succ_self _
  case ordered =>
    intro s hs
    rcases List.mem_append.1 hs with hs | hs
    · exact h.ordered s hs
    · obtain rfl := List.mem_singleton.1 hs
      exact List.Pairwise.nil
  case fragments =>
    intro i hi s hs name
    rcases hcases hi hs with ⟨hi, hs⟩ | ⟨rfl, rfl⟩
    · rw [hindex hi]
      exact (h.give hu hlt rfl hi hs).1 name
    · rw [hindex', queue_concat hu hlt, queue_of_notMem hnone]
      rfl
  case data =>
    intro i hi s hs
    rcases hcases hi hs with ⟨hi, hs⟩ | ⟨rfl, rfl⟩
    · rw [hindex hi]
      exact (h.give hu hlt rfl hi hs).2
    · rw [hindex', List.filter_append, h.length_handles, ← hu.length_gives]
      exact List.getElem?_concat_length

theorem perform (h : Tracks ops t) (hu : Usage ops)
    (hop : ∀ handle ∈ op.handle?, handle < (families ops).length) :
    Tracks (ops ++ [op]) (t.perform op) := by
  have hscope {handle : Nat} (hlt : handle < (families ops).length) :
      ∃ i, t.handles[handle]? = some i :=
    ⟨_, List.getElem?_eq_getElem (h.length_handles ▸ hlt)⟩
  cases op with
  | fresh data => exact h.fresh hu data
  | clone handle => exact h.clone hu (hop handle rfl)
  | pending handle => exact h.pending hu (hop handle rfl)
  | append handle name fragment =>
    obtain ⟨i, hi⟩ := hscope (hop handle rfl)
    have hf := h.getElem?_families hi
    refine h.modify hu rfl rfl hi (fun s hs => hs.insert _ _) (fun s => rfl) (fun s other => ?_)
      fun family other hne => ?_
    · rw [fragments_append]
      by_cases hn : name = other <;> simp [Operation.effect?, hf, hn, effected]
    · simp [Operation.effect?, hf, hne.symm]
  | consume handle name =>
    obtain ⟨i, hi⟩ := hscope (hop handle rfl)
    have hf := h.getElem?_families hi
    refine h.modify hu rfl rfl hi (fun s hs => hs.insert _ _) (fun s => rfl) (fun s other => ?_)
      fun family other hne => ?_
    · rw [fragments_consume]
      by_cases hn : name = other <;> simp [Operation.effect?, hf, hn, effected]
    · simp [Operation.effect?, hf, hne.symm]

end Tracks

theorem Usage.tracks (h : Usage ops) : Tracks ops (Handles.after ops) := by
  induction h with
  | nil => exact ⟨rfl, nofun, nofun, nofun, nofun⟩
  | concat h hop ih =>
    rw [Handles.after, List.foldl_append]
    exact ih.perform h hop

/-! ## Answers -/

theorem mem_pending_iff {s : Scope} (h : s.blocks.Ordered) (name : String) :
    name ∈ s.pending ↔ s.fragments name ≠ [] := by
  simp only [Scope.pending, Table.keys, fragments, List.mem_map, List.mem_filter, Prod.exists]
  constructor
  · rintro ⟨n, fragments, ⟨hm, hne⟩, rfl⟩
    rw [h.get?_of_mem hm]
    simpa using hne
  · intro hne
    cases hg : s.blocks.get? name with
    | none => simp [hg] at hne
    | some fragments =>
      rw [hg] at hne
      exact ⟨name, fragments, ⟨Table.mem_of_get? hg, by simpa using hne⟩, rfl⟩

theorem pending_ordered {s : Scope} (h : s.blocks.Ordered) : s.pending.Pairwise (· < ·) :=
  List.pairwise_map.2 (h.filter _)

namespace Tracks

variable {t : Handles} {handle i family : Nat}

theorem exists_scope (h : Tracks ops t) (hf : (families ops)[handle]? = some family) :
    ∃ i s, t.handles[handle]? = some i ∧ t.families[i]? = some s ∧ t.handles.idxOf i = family := by
  rw [h.handles, List.getElem?_map] at hf
  obtain ⟨i, hi, rfl⟩ := Option.map_eq_some_iff.1 hf
  exact ⟨i, _, hi, List.getElem?_eq_getElem (h.started i (List.mem_of_getElem? hi)), rfl⟩

/-- What is done through handles of other families is not seen. -/
theorem scope?_perform (h : Tracks ops t) (hf : (families ops)[handle]? = some family)
    (hother : ∀ other ∈ op.handle?, (families ops)[other]? ≠ some family) :
    (t.perform op).scope? handle = t.scope? handle := by
  obtain ⟨i, s, hi, hs, hfamily⟩ := h.exists_scope hf
  have hlt : handle < t.handles.length := (List.getElem?_eq_some_iff.1 hi).1
  have hmodify (other : Nat) (hne : (families ops)[other]? ≠ some family)
      (change : Scope → Scope) : (t.modify other change).scope? handle = t.scope? handle := by
    unfold Handles.modify
    cases hj : t.handles[other]? with
    | none => rfl
    | some j =>
      have hij : j ≠ i := by
        rintro rfl
        exact hne (hfamily ▸ h.getElem?_families hj)
      simp only [Handles.scope?, hi, Option.bind_some, List.getElem?_modify, hs, hij]
      rfl
  cases op with
  | fresh data =>
    have hlt' : i < t.families.length := (List.getElem?_eq_some_iff.1 hs).1
    simp only [Handles.perform, Handles.fresh, Handles.scope?, List.getElem?_append_left hlt, hi,
      Option.bind_some, List.getElem?_append_left hlt']
  | clone other =>
    simp only [Handles.perform, Handles.clone]
    cases t.handles[other]? with
    | none => rfl
    | some j => simp only [Handles.scope?, List.getElem?_append_left hlt]
  | append other name fragment => exact hmodify other (hother other rfl) _
  | consume other name => exact hmodify other (hother other rfl) _
  | pending other => rfl

end Tracks

theorem joined_consume_ne (t : Handles) (other handle : Nat) {name name' : String}
    (h : name ≠ name') :
    ((t.consume other name).2.consume handle name').1 = (t.consume handle name').1 := by
  simp only [Handles.consume, Handles.modify]
  cases hj : t.handles[other]? with
  | none => rfl
  | some j =>
    simp only [Handles.scope?]
    cases t.handles[handle]? with
    | none => rfl
    | some i =>
      simp only [Option.bind_some, List.getElem?_modify]
      cases t.families[i]? with
      | none => rfl
      | some s => by_cases hij : j = i <;> simp [hij, joined, fragments_consume, h]

/-- **A family of handles is a table of queues.** Consuming a name through a handle gives what the
family holds of it on lines of their own, and pending are the names of which it holds something,
in increasing order. The data are those that the family was started with. A new handle has the next
number. Consuming a name leaves the other names, and whatever is done through handles of another
family is not seen. -/
theorem shared_blocks {ops : List Operation} (h : Usage ops) {handle family : Nat}
    (hf : (families ops)[handle]? = some family) :
    let t := Handles.after ops
    (∀ name, (t.consume handle name).1 = "\n".intercalate (queue ops family name)) ∧
    ((t.pending handle).Pairwise (· < ·) ∧
      ∀ name, name ∈ t.pending handle ↔ queue ops family name ≠ []) ∧
    (ops.filter Operation.gives)[family]? = some (.fresh (t.data handle)) ∧
    ((∀ data, (t.fresh data).1 = (families ops).length) ∧
      (t.clone handle).1 = (families ops).length) ∧
    (∀ other name name', name ≠ name' →
      ((t.consume other name).2.consume handle name').1 = (t.consume handle name').1) ∧
    ∀ op : Operation, (∀ other ∈ op.handle?, (families ops)[other]? ≠ some family) →
      (t.perform op).scope? handle = t.scope? handle := by
  intro t
  have ht : Tracks ops t := h.tracks
  obtain ⟨i, s, hi, hs, rfl⟩ := ht.exists_scope hf
  have hscope : t.scope? handle = some s := by rw [Handles.scope?, hi, Option.bind_some, hs]
  have hmem : i ∈ t.handles := List.mem_of_getElem? hi
  have hordered := ht.ordered s (List.mem_of_getElem? hs)
  have hpending : t.pending handle = s.pending := by rw [Handles.pending, hscope]; rfl
  have hdata : t.data handle = s.data := by rw [Handles.data, hscope]; rfl
  refine ⟨fun name => ?_, ⟨?_, fun name => ?_⟩, ?_, ⟨fun data => ?_, ?_⟩, ?_, fun op => ?_⟩
  · rw [Handles.consume, hscope, ← ht.fragments i hmem s hs]
    rfl
  · rw [hpending]
    exact pending_ordered hordered
  · rw [hpending, mem_pending_iff hordered, ht.fragments i hmem s hs]
  · rw [hdata, ht.data i hmem s hs]
  · exact ht.length_handles
  · rw [Handles.clone, hi]
    exact ht.length_handles
  · exact fun other name name' hne => joined_consume_ne t other handle hne
  · exact ht.scope?_perform hf

/-- Two families, of which the first has two handles; one of its fragments is empty. -/
theorem shared_blocks_cloned :
    let ops : List Operation := [.fresh [], .clone 0, .fresh [("k", .null)], .append 0 "a" "1",
      .consume 1 "a", .append 1 "b" "", .append 0 "b" "2", .append 2 "b" "3"]
    let t := Handles.after ops
    Usage ops ∧ (families ops)[1]? = some 0 ∧ (t.consume 1 "b").1 = "\n2" ∧
      (t.consume 1 "a").1 = "" ∧ ("b" ∈ t.pending 1 ∧ "a" ∉ t.pending 1) ∧
      (t.perform (.consume 2 "b")).scope? 1 = t.scope? 1 := by
  intro ops t
  have husage : Usage ops :=
    .concat (.concat (.concat (.concat (.concat (.concat (.concat (.concat .nil (by decide))
      (by decide)) (by decide)) (by decide)) (by decide)) (by decide)) (by decide)) (by decide)
  have hfamily : (families ops)[1]? = some 0 := by decide
  obtain ⟨hconsume, ⟨-, hpending⟩, -, -, -, hother⟩ := shared_blocks husage hfamily
  refine ⟨husage, hfamily, ?_, ?_, ⟨?_, ?_⟩, hother _ ?_⟩
  · rw [hconsume]
    decide
  · rw [hconsume]
    decide
  · rw [hpending]
    decide
  · rw [hpending]
    decide
  · decide

end Views.Scope
