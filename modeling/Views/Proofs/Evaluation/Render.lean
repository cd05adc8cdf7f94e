import Views.Proofs.Evaluation.Helper

/-!
# Comparing renderings

A template whose partial tags have names of a frame is rendered alike on both registries
(`Twin.renderTemplate`), if the templates that it includes are. These are known by the same names,
so this goes on to any depth (`Twin.renderNested`).
-/

set_option autoImplicit false

namespace Views.Evaluation.Frame.Twin

variable {F : Frame}

/-! ## Parameters -/

theorem evalReference (r : Reference) :
    F.Twin Eq (evalReference F.env r) (evalReference F.env' r) := by
  unfold Evaluation.evalReference
  rw [F.root]
  exact get_bind fun s current _ _ => bind_eq (liftReason _) fun _ => pure rfl

mutual

theorem evalParam : (p : Param) → F.Twin Eq (evalParam F.env p) (evalParam F.env' p)
  | .reference r => by
    rw [Evaluation.evalParam, Evaluation.evalParam]
    exact evalReference r
  | .literal v => by
    rw [Evaluation.evalParam, Evaluation.evalParam]
    exact pure rfl
  | .call name args hash => by
    rw [Evaluation.evalParam, Evaluation.evalParam]
    exact bind_eq (evalParams args) fun _ => bind_eq (evalHash hash) fun _ =>
      valueOfCall (.mk .none .none)

theorem evalParams : (ps : List Param) → F.Twin Eq (evalParams F.env ps) (evalParams F.env' ps)
  | [] => by
    rw [Evaluation.evalParams, Evaluation.evalParams]
    exact pure rfl
  | p :: ps => by
    rw [Evaluation.evalParams, Evaluation.evalParams]
    exact bind_eq (evalParam p) fun _ => bind_eq (evalParams ps) fun _ => pure rfl

theorem evalHash : (ps : List (String × Param)) →
    F.Twin Eq (evalHash F.env ps) (evalHash F.env' ps)
  | [] => by
    rw [Evaluation.evalHash, Evaluation.evalHash]
    exact pure rfl
  | (name, p) :: ps => by
    rw [Evaluation.evalHash, Evaluation.evalHash]
    exact bind_eq (evalParam p) fun _ => bind_eq (evalHash ps) fun _ => pure rfl

end

/-! ## Tags without a partial -/

variable {body body' alternative alternative' : Option (Render Unit)}

theorem invocation (c : Call) (hb : Option.Rel (F.Twin Eq) body body')
    (ha : Option.Rel (F.Twin Eq) alternative alternative') :
    F.Twin F.Calls (invocation F.env c body alternative) (invocation F.env' c body' alternative') :=
  bind_eq (evalParams _) fun _ => bind_eq (evalHash _) fun _ => pure (.mk hb ha)

theorem callHelper (c : Call) (isBlock startsLine : Bool) (hb : Option.Rel (F.Twin Eq) body body')
    (ha : Option.Rel (F.Twin Eq) alternative alternative') :
    F.Twin Eq (callHelper F.env c isBlock startsLine body alternative)
      (callHelper F.env' c isBlock startsLine body' alternative') := by
  refine bind (invocation c hb ha) fun inv inv' h => tracked (fun _ _ => rfl) ?_
  dsimp only
  rw [findHelper_eq]
  exact bind_eq (liftReason _) fun helper => runHelper helper h

theorem nameOf (p : Param) : F.Twin Eq (nameOf F.env p) (nameOf F.env' p) := by
  cases p with
  | reference r => exact pure rfl
  | literal v => exact pure rfl
  | call name args hash => exact bind_eq (evalParam _) fun _ => pure rfl

theorem renderAlone (p : Param) : F.Twin Eq (renderAlone F.env p) (renderAlone F.env' p) := by
  unfold Evaluation.renderAlone
  rw [← F.like.helpers, ← F.like.strict]
  refine bind_eq (nameOf p) fun name => ite (bind_eq (nameOf p) fun name => ?_)
    (bind_eq (evalParam p) fun e => ?_)
  · exact callHelper _ _ _ .none .none
  · split
    · exact writeValue _
    · refine ite (fail _) ?_
      split
      · exact bind_eq (nameOf p) fun _ => runHelper _ (.mk .none .none)
      · exact pure rfl

theorem escapedIf (escaped : Bool) {r r' : Render Unit} (h : F.Twin Eq r r') :
    F.Twin Eq (escapedIf escaped r) (escapedIf escaped r') :=
  ite h (bind_eq (modify fun _ _ hc ht => ⟨rfl, hc, ht⟩) fun _ => bind_eq h fun _ =>
    modify fun _ _ hc ht => ⟨rfl, hc, ht⟩)

/-- A decorator defines a partial that itself includes others by the names of the frame. -/
theorem runDecorator (c : Call) {t : Option Template} (h : ∀ u, t = some u → u.Within F.names) :
    F.Twin Eq (runDecorator F.env c t) (runDecorator F.env' c t) := by
  refine bind (invocation c .none .none) fun inv inv' hi => ite ?_ (fail _)
  have harg : inv'.arg = inv.arg := by obtain ⟨-, -⟩ := hi; rfl
  rw [harg]
  refine bind_eq (liftReason _) fun e => ?_
  split
  · rename_i name u
    refine modify fun s current hn ht => ?_
    have hs : F.Similar s { s with current } := ⟨rfl, hn, ht⟩
    obtain ⟨hc, htame⟩ := hs.context
    rw [hc]
    refine ⟨rfl, hn, List.forall_mem_cons.2 ⟨fun n v hv => ?_, fun c hm =>
      ht c (List.mem_of_mem_tail hm)⟩⟩
    rw [Table.get?_insert] at hv
    split at hv
    · cases hv
      exact h _ rfl
    · exact htame n v hv
  · exact fail _
  · exact fail _

/-! ## Partials -/

/-- A template with a name of the frame is being rendered in both states or in none. -/
theorem refuseItself {name : String} (hn : F.names name) :
    F.Twin Eq (refuseItself name) (refuseItself name) := by
  refine get_bind fun s current hc _ => ?_
  rcases hc with hc | ⟨hkey, rfl⟩
  · dsimp only
    rw [← hc]
    split
    · exact ite (fail _) (pure rfl)
    · exact pure rfl
  · dsimp only
    rw [hkey]
    rcases F.keys with hkeys | ⟨hn', hn''⟩
    · rw [hkeys]
      exact ite (fail _) (pure rfl)
    · have hne : F.key ≠ name := fun he => hn' (he ▸ hn)
      have hne' : F.key' ≠ name := fun he => hn'' (he ▸ hn)
      dsimp only
      rw [if_neg hne, if_neg hne']
      exact pure rfl

/-- The partial of a name of the frame is the same, and includes others by such names. -/
theorem findPartial {s : State} (ht : ∀ c ∈ s.contexts, F.Tame c) {name : String}
    (hn : F.names name) (hbody : name ≠ bodyName) (current : Option String) :
    findPartial F.env' { s with current } name = findPartial F.env s name ∧
      ∀ t, findPartial F.env s name = some t → t.Within F.names := by
  unfold Evaluation.findPartial
  refine ⟨?_, fun t h => ?_⟩
  · rw [F.same name hn hbody]
  · cases hc : s.contexts.findSome? fun c => c.inlines.get? name with
    | none =>
      rw [hc] at h
      exact F.within name t hn hbody h
    | some u =>
      rw [hc] at h
      cases h
      obtain ⟨c, hm, hu⟩ := List.exists_of_findSome?_eq_some hc
      exact ht c hm name _ hu

theorem tame_partialContext {c : Context} (h : F.Tame c) (args : List Evaluated)
    (hash : Table Evaluated) : F.Tame (partialContext c args hash) := by
  unfold partialContext
  cases args.head? with
  | none =>
    dsimp only
    split
    · exact h
    · exact h
  | some e =>
    dsimp only
    split
    · exact tame_of_nil rfl
    · exact tame_of_nil rfl

theorem captured {body body' : Option (Render Unit)} (h : Option.Rel (F.Twin Eq) body body') :
    F.Twin Eq (body.mapM Evaluation.capture) (body'.mapM Evaluation.capture) := by
  cases h with
  | none => exact pure rfl
  | some h =>
    rw [Option.mapM_some, Option.mapM_some, map_eq_pure_bind, map_eq_pure_bind]
    exact bind_eq (capture h) fun _ => pure rfl

/-- What a partial tag includes stays in step if its name is one of the frame and entering templates
within the frame does. -/
theorem renderPartial {c : PartialCall} {name : String} (hname : c.name = .fixed name)
    (hn : F.names name) {enter enter' : Template → Render Unit}
    (henter : ∀ t, t.Within F.names → F.Twin Eq (enter t) (enter' t))
    (hb : Option.Rel (F.Twin Eq) body body') :
    F.Twin Eq (renderPartial F.env enter c body) (renderPartial F.env' enter' c body') := by
  simp only [Evaluation.renderPartial, hname, pure_bind]
  refine bind_eq (evalParams _) fun args => bind_eq (evalHash _) fun hash =>
    tracked (fun _ _ => rfl) (get_bind fun s current hc ht => ?_)
  have hs : F.Similar s { s with current } := ⟨rfl, hc, ht⟩
  obtain ⟨hcontext, htame⟩ := hs.context
  rw [hcontext]
  have hpartial := tame_partialContext htame args hash
  refine bind_eq (refuseItself hn) fun _ => bind_eq (withContext hpartial
    (bind_eq (captured hb) fun written => ?_)) fun _ => modify fun _ _ _ ht' => ⟨rfl, hc, ht'⟩
  by_cases hbody : name = bodyName
  · rw [if_pos hbody, if_pos hbody]
    dsimp only
    cases s.body? <|> written with
    | some text => exact emit _
    | none => exact fail _
  · rw [if_neg hbody, if_neg hbody]
    refine get_bind fun u current' _ hu => ?_
    obtain ⟨hsame, hwithin⟩ := findPartial hu hn hbody current'
    rw [hsame]
    cases hfound : Evaluation.findPartial F.env u name with
    | some t =>
      exact bind_eq (modify fun _ _ hc' ht' => ⟨rfl, hc', ht'⟩) fun _ => henter t (hwithin t hfound)
    | none =>
      cases written with
      | some text => exact emit _
      | none => exact fail _

/-! ## Templates -/

variable {enter enter' : Template → Render Unit}

mutual

theorem renderTemplate
    (henter : ∀ t, t.Within F.names → F.Twin Eq (enter t) (enter' t)) :
    (t : Template) → t.Within F.names →
    F.Twin Eq (renderTemplate F.env enter t) (renderTemplate F.env' enter' t)
  | .mk name elements, h => by
    rw [Evaluation.renderTemplate, Evaluation.renderTemplate]
    exact bind_eq (modify fun _ _ _ ht => ⟨rfl, named_refl _, ht⟩) fun _ =>
      renderElements henter (named_refl _) elements h

theorem renderElements
    (henter : ∀ t, t.Within F.names → F.Twin Eq (enter t) (enter' t))
    {name name' : Option String} (hname : F.Named name name') :
    (elements : List (Element × Option Position)) →
    PartialName.Within F.names (Template.inclusionsOf elements) →
    F.Twin Eq (renderElements F.env enter name elements)
      (renderElements F.env' enter' name' elements)
  | [], _ => by
    rw [Evaluation.renderElements, Evaluation.renderElements]
    exact pure rfl
  | (element, place) :: rest, h => by
    rw [Template.inclusionsOf, PartialName.within_append] at h
    rw [Evaluation.renderElements, Evaluation.renderElements]
    exact bind_eq (locate (renderElement henter element h.1) hname place) fun _ =>
      renderElements henter hname rest h.2

theorem renderElement
    (henter : ∀ t, t.Within F.names → F.Twin Eq (enter t) (enter' t)) :
    (element : Element) → PartialName.Within F.names element.inclusions →
    F.Twin Eq (renderElement F.env enter element) (renderElement F.env' enter' element)
  | .text s, _ => by
    rw [Evaluation.renderElement, Evaluation.renderElement]
    exact write s
  | .comment, _ => by
    rw [Evaluation.renderElement, Evaluation.renderElement]
    exact pure rfl
  | .value p escaped, _ => by
    rw [Evaluation.renderElement, Evaluation.renderElement]
    exact escapedIf escaped (renderAlone p)
  | .call c escaped, _ => by
    rw [Evaluation.renderElement, Evaluation.renderElement]
    exact escapedIf escaped (callHelper c _ _ .none .none)
  | .block c body none startsLine, h => by
    rw [Element.inclusions] at h
    rw [Evaluation.renderElement, Evaluation.renderElement]
    exact callHelper c _ _ (.some (renderTemplate henter body h)) .none
  | .block c body (some alternative) startsLine, h => by
    rw [Element.inclusions, PartialName.within_append] at h
    rw [Evaluation.renderElement, Evaluation.renderElement]
    exact callHelper c _ _ (.some (renderTemplate henter body h.1))
      (.some (renderTemplate henter alternative h.2))
  | .inclusion c none, h => by
    rw [Element.inclusions, PartialName.within_cons] at h
    obtain ⟨⟨name, hname, hn⟩, -⟩ := h
    rw [Evaluation.renderElement, Evaluation.renderElement]
    exact renderPartial hname hn henter .none
  | .inclusion c (some body), h => by
    rw [Element.inclusions, PartialName.within_cons] at h
    obtain ⟨⟨name, hname, hn⟩, hbody⟩ := h
    rw [Evaluation.renderElement, Evaluation.renderElement]
    exact renderPartial hname hn henter (.some (renderTemplate henter body hbody))
  | .decorator c none, _ => by
    rw [Evaluation.renderElement, Evaluation.renderElement]
    exact runDecorator c fun _ h => by cases h
  | .decorator c (some body), h => by
    rw [Element.inclusions] at h
    rw [Evaluation.renderElement, Evaluation.renderElement]
    exact runDecorator c fun _ hu => by cases hu; exact h

end

/-- **Templates within the frame stay in step**, to any depth. -/
theorem renderNested (n : Nat) (t : Template) (h : t.Within F.names) :
    F.Twin Eq (renderNested F.env n t) (renderNested F.env' n t) := by
  induction n generalizing t with
  | zero => exact fail _
  | succ n ih => exact renderTemplate ih t h

/-- The templates under the two keys stay in step, if they have the same elements. -/
theorem renderKeyed (n : Nat) (elements : List (Element × Option Position))
    (h : PartialName.Within F.names (Template.inclusionsOf elements)) :
    F.Twin Eq (Evaluation.renderNested F.env n (.mk (some F.key) elements))
      (Evaluation.renderNested F.env' n (.mk (some F.key') elements)) := by
  cases n with
  | zero => exact fail _
  | succ n =>
    rw [Evaluation.renderNested, Evaluation.renderNested, Evaluation.renderTemplate,
      Evaluation.renderTemplate]
    exact bind_eq (modify fun _ _ _ ht => ⟨rfl, .inr ⟨rfl, rfl⟩, ht⟩) fun _ =>
      renderElements (fun t ht => renderNested n t ht) (.inr ⟨rfl, rfl⟩) elements h

end Views.Evaluation.Frame.Twin
