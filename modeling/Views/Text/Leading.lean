/-!
# Leading words

A text, as a list of characters, that starts with a given word is that word and the text behind it.
-/

set_option autoImplicit false

namespace Views.Text

/-- The text behind a word, if the text starts with it. -/
def dropWord? (word s : List Char) : Option (List Char) :=
  match word, s with
  | [], s => some s
  | _ :: _, [] => none
  | w :: word, c :: s => if w = c then dropWord? word s else none

theorem dropWord?_eq_some {word s rest : List Char} (h : dropWord? word s = some rest) :
    s = word ++ rest := by
  induction word generalizing s with
  | nil => simpa [dropWord?] using h
  | cons w word ih =>
    cases s with
    | nil => simp [dropWord?] at h
    | cons c s =>
      by_cases hc : w = c
      · subst hc
        simp only [dropWord?, if_true] at h
        simp [ih h]
      · simp [dropWord?, hc] at h

end Views.Text
