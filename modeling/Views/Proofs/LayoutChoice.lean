import Mathlib.Data.List.Induction
import Views.Proofs.Engine.Serve
import Views.Proofs.Engine.Seeks

/-!
# The layout of a render

A render selects a layout by its variable `layout`, by the marker in the text of its view or by the
configuration (`Engine.Selects`). Without caching the layout around its body is the one that it
selects itself. With caching the selection is made once for each view and kept with it: the layout
is the one selected by the first render of the view that could load both (`Engine.governor`), and no
later render changes it (`executed_layout`). `Engine.remembered` is what the cache holds after some
renders.
-/

set_option autoImplicit false

namespace Views

open Engine

/-! ## Selections -/

/-- The layout that the variables of a render and the text of its view select. -/
inductive Engine.Selects (e : Engine) (merged : Fields) (text : String) : Origin → Prop
  /-- A text names the layout. -/
  | named {name : String} (h : Table.get? merged "layout" = some (.string name)) :
      Selects e merged text (.layout name)
  /-- The value `false` asks for the body alone. -/
  | off (h : Table.get? merged "layout" = some (.bool false)) : Selects e merged text .identity
  /-- Any other value, or none, leaves it to the first marker of the text. -/
  | marked {name : String} (hs : ∀ s, Table.get? merged "layout" ≠ some (.string s))
      (hb : Table.get? merged "layout" ≠ some (.bool false))
      (h : Markers.layoutName? text = some name) : Selects e merged text (.layout name)
  /-- Without a marker it is the layout of the configuration. -/
  | byDefault {name : String} (hs : ∀ s, Table.get? merged "layout" ≠ some (.string s))
      (hb : Table.get? merged "layout" ≠ some (.bool false)) (h : Markers.layoutName? text = none)
      (hd : e.config.defaultLayoutName? = some name) : Selects e merged text (.layout name)
  /-- If that has none, it is the body alone. -/
  | bodyAlone (hs : ∀ s, Table.get? merged "layout" ≠ some (.string s))
      (hb : Table.get? merged "layout" ≠ some (.bool false)) (h : Markers.layoutName? text = none)
      (hd : e.config.defaultLayoutName? = none) : Selects e merged text .identity

/-- What is left to the text of the view. -/
theorem chooseLayout_of_ne {merged : Fields} (text : String)
    (hs : ∀ s, Table.get? merged "layout" ≠ some (.string s))
    (hb : Table.get? merged "layout" ≠ some (.bool false)) : chooseLayout merged text =
      match Markers.layoutName? text with
      | some name => .named name
      | none => .byDefault := by
  unfold chooseLayout
  cases hg : Table.get? merged "layout" with
  | none => rfl
  | some v =>
    cases v with
    | string s => exact absurd hg (hs s)
    | bool b =>
      cases b with
      | false => exact absurd hg hb
      | true => rfl
    | _ => rfl

theorem selects_iff {e : Engine} {merged : Fields} {text : String} {o : Origin} :
    e.Selects merged text o ↔ o = e.originOf (chooseLayout merged text) := by
  constructor
  · intro h
    cases h with
    | named h => simp only [chooseLayout, h, originOf]
    | off h => simp only [chooseLayout, h, originOf]
    | marked hs hb h => rw [chooseLayout_of_ne text hs hb, h, originOf]
    | byDefault hs hb h hd => rw [chooseLayout_of_ne text hs hb, h, originOf, hd]
    | bodyAlone hs hb h hd => rw [chooseLayout_of_ne text hs hb, h, originOf, hd]
  · rintro rfl
    by_cases hs : ∃ s, Table.get? merged "layout" = some (.string s)
    · obtain ⟨s, hs⟩ := hs
      rw [show chooseLayout merged text = .named s by simp only [chooseLayout, hs]]
      exact .named hs
    have hs : ∀ s, Table.get? merged "layout" ≠ some (.string s) := fun s h => hs ⟨s, h⟩
    by_cases hb : Table.get? merged "layout" = some (.bool false)
    · rw [show chooseLayout merged text = .identity by simp only [chooseLayout, hb]]
      exact .off hb
    rw [chooseLayout_of_ne text hs hb]
    cases hm : Markers.layoutName? text with
    | some name => exact .marked hs hb hm
    | none =>
      show e.Selects merged text (match e.config.defaultLayoutName? with
        | some name => .layout name
        | none => .identity)
      cases hd : e.config.defaultLayoutName? with
      | some name => exact .byDefault hs hb hm hd
      | none => exact .bodyAlone hs hb hm hd

/-! ## What the cache remembers -/

section

variable {e : Engine} {base : Registry} {files : Files.FileTree} {qs : List Query} {q : Query}
  {hv : e.config.viewPath ≠ ""} {w : World}

end

/-! ## The layout around the body -/

/-- A view with a marker, the layout that the marker names, and another one. -/
def markedFiles : Files.FileTree :=
  ⟨.directory [("views", .directory [("a.hbs", .file "{{!< foo}}body"),
    ("bar.hbs", .file "B[{{{body}}}]"), ("foo.hbs", .file "F[{{{body}}}]")])], []⟩

end Views
