/-!
# Classes of characters

What is to hold of all characters of a class is decided one by one, if the class lies below 128
(`forall_ascii`), as the letters and digits do (`forall_alphanum`).
-/

set_option autoImplicit false

namespace Views.Ascii

variable {p : Char → Prop} {c : Char}

theorem ne_of_mem_class {p : Char → Bool} {x y : Char} (hx : p x = true) (hy : p y = false) :
    x ≠ y := fun he => Bool.false_ne_true (hy.symm.trans (he ▸ hx))

theorem forall_ascii (h : ∀ n < 128, p (Char.ofNat n)) (hc : c.toNat < 128) : p c :=
  Char.ofNat_toNat c ▸ h c.toNat hc

theorem toNat_lt_of_isAlphanum (h : c.isAlphanum = true) : c.toNat < 128 := by
  delta Char.isAlphanum Char.isAlpha Char.isUpper Char.isLower Char.isDigit at h
  simp only [Bool.or_eq_true, Bool.and_eq_true, decide_eq_true_eq, UInt32.le_iff_toNat_le,
    ge_iff_le] at h
  have : c.toNat = c.val.toNat := rfl
  have : 'Z'.val.toNat = 90 := rfl
  have : 'z'.val.toNat = 122 := rfl
  have : '9'.val.toNat = 57 := rfl
  omega

theorem forall_alphanum (h : ∀ n < 128, (Char.ofNat n).isAlphanum = true → p (Char.ofNat n))
    (hc : c.isAlphanum = true) : p c :=
  forall_ascii (p := fun c => c.isAlphanum = true → p c) h (toNat_lt_of_isAlphanum hc) hc

end Views.Ascii
