import Views.Text.Blank
import Views.Text.Leading

/-!
# Markers

A template text names its layout and its partials in markers, which are found without reading the
rest of the text: `{{!< name }}` for the layout and `{{> name }}` for a partial. A marker is its
opening, one or more blanks, a name over letters, digits, dots, underscores, hyphens and slashes,
any blanks, and two closing braces. `layoutName?` gives the name in the first layout marker,
`partialNames` those in the partial markers without repetition.
-/

set_option autoImplicit false

namespace Views.Markers

/-- The opening of a layout marker. -/
def layoutOpening : List Char := ['{', '{', '!', '<']

/-- The opening of a partial marker. -/
def partialOpening : List Char := ['{', '{', '>']

/-- The closing of a marker. -/
def closing : List Char := ['}', '}']

/-- A character of a name in a marker. -/
def isNameChar (c : Char) : Bool :=
  c.isAlphanum || c == '.' || c == '_' || c == '-' || c == '/'

/-- Reads a marker with the given opening at the start of a text; gives its name and the text
behind it. -/
def marker? (opening s : List Char) : Option (List Char × List Char) :=
  match Text.dropWord? opening s with
  | none => none
  | some afterOpening =>
    let afterBlanks := afterOpening.dropWhile Text.isBlank
    let name := afterBlanks.takeWhile isNameChar
    let afterName := (afterBlanks.dropWhile isNameChar).dropWhile Text.isBlank
    if afterOpening.head?.any Text.isBlank ∧ name ≠ [] then
      (Text.dropWord? closing afterName).map fun rest => (name, rest)
    else none

/-! ## What a marker consumes -/

theorem length_dropWhile_le (p : Char → Bool) (s : List Char) : (s.dropWhile p).length ≤ s.length :=
  (List.dropWhile_suffix p).length_le

/-- A marker has at least one character, so a search goes on in a shorter text. -/
theorem marker?_length {opening s name rest : List Char}
    (h : marker? opening s = some (name, rest)) : rest.length < s.length := by
  unfold marker? at h
  split at h
  · simp at h
  · rename_i after ha
    have hs := Text.dropWord?_eq_some ha
    simp only at h
    split at h
    · rw [Option.map_eq_some_iff] at h
      obtain ⟨r, hr, heq⟩ := h
      have hc := Text.dropWord?_eq_some hr
      simp only [Prod.mk.injEq] at heq
      obtain ⟨-, rfl⟩ := heq
      have h1 := congrArg List.length hc
      have h2 := congrArg List.length hs
      have h3 := length_dropWhile_le Text.isBlank
        ((after.dropWhile Text.isBlank).dropWhile isNameChar)
      have h4 := length_dropWhile_le isNameChar (after.dropWhile Text.isBlank)
      have h5 := length_dropWhile_le Text.isBlank after
      simp only [List.length_append, closing, List.length_cons, List.length_nil] at h1 h2
      omega
    · simp at h

/-! ## Searches -/

/-- The names in all markers with the given opening, in order; a search goes on behind a marker. -/
def names (opening s : List Char) : List (List Char) :=
  match s with
  | [] => []
  | c :: rest =>
    match _h : marker? opening (c :: rest) with
    | some (name, after) => name :: names opening after
    | none => names opening rest
termination_by s.length
decreasing_by
  · exact marker?_length _h
  · simp

/-- The name in the first layout marker of a template text. -/
def layoutName? (text : String) : Option String :=
  (names layoutOpening text.toList).head?.map String.ofList

/-- The names in the partial markers of a template text, each once, in order of first appearance. -/
def partialNames (text : String) : List String :=
  (names partialOpening text.toList).foldl
    (fun seen name =>
      let name := String.ofList name
      if seen.contains name then seen else seen ++ [name]) []

end Views.Markers
