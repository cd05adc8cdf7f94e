/-!
# Doubles

A finite double is a sign, a mantissa and a binary exponent: its value is
`± mantissa · 2 ^ exponent`. The fields are canonical, so equal fields are the same double and
every double has one form. Arithmetic is exact on rationals followed by one rounding to nearest,
where a tie goes to the even mantissa; a value too large to round to a double has none.
-/

set_option autoImplicit false

namespace Views

/-- The fields that a double can have: a full mantissa, or a short one at the least exponent. -/
def Double.Canonical (mantissa : Nat) (exponent : Int) : Prop :=
  (1 <<< 52 ≤ mantissa ∧ mantissa < 1 <<< 53 ∧ -1074 ≤ exponent ∧ exponent ≤ 971) ∨
    (mantissa < 1 <<< 52 ∧ exponent = -1074)

instance (mantissa : Nat) (exponent : Int) : Decidable (Double.Canonical mantissa exponent) :=
  inferInstanceAs (Decidable (_ ∨ _))

/-- A finite double. -/
structure Double where
  /-- Whether the sign is minus; zero has both signs. -/
  negative : Bool
  mantissa : Nat
  exponent : Int
  canonical : Double.Canonical mantissa exponent
  deriving DecidableEq

namespace Double

/-- Zero with a sign. -/
def zero (negative : Bool) : Double := ⟨negative, 0, -1074, by decide⟩

instance : Inhabited Double := ⟨zero false⟩

/-- Whether the value is zero, of either sign. -/
def isZero (d : Double) : Bool := d.mantissa == 0

/-- Whether the value is nonzero and has a full mantissa. -/
def isNormal (d : Double) : Bool := 1 <<< 52 ≤ d.mantissa

/-! ## Rounding -/

/-- The quotient of two naturals rounded to nearest, a tie to even. -/
def roundDiv (num den : Nat) : Nat :=
  let q := num / den
  let r := num % den
  if 2 * r < den then q
  else if den < 2 * r then q + 1
  else if q % 2 = 0 then q else q + 1

/-- The exponent `e` with `2 ^ e ≤ num / den < 2 ^ (e + 1)`, for nonzero `num` and `den`. -/
def floorLog2 (num den : Nat) : Int :=
  let guess : Int := (num.log2 : Int) - den.log2
  let below : Bool := if 0 ≤ guess then num < den <<< guess.toNat else num <<< (-guess).toNat < den
  if below then guess - 1 else guess

/-- The double nearest to `num / den`, unless it lies beyond the largest one. -/
def round (negative : Bool) (num den : Nat) : Option Double :=
  if num = 0 ∨ den = 0 then some (zero negative)
  else
    let e := max (-1074) (floorLog2 num den - 52)
    let m := if 0 ≤ e then roundDiv num (den <<< e.toNat) else roundDiv (num <<< (-e).toNat) den
    if h : Canonical m e then some ⟨negative, m, e, h⟩
    else if h : m = 1 <<< 53 ∧ -1074 ≤ e ∧ e + 1 ≤ 971 then
      some ⟨negative, 1 <<< 52, e + 1, Or.inl ⟨by decide, by decide, by omega, h.2.2⟩⟩
    else none

/-- The double nearest to an integer. -/
def ofInt? (n : Int) : Option Double := round (n < 0) n.natAbs 1

/-- The double nearest to `digits · 10 ^ power`. -/
def ofDecimal? (negative : Bool) (digits : Nat) (power : Int) : Option Double :=
  if 0 ≤ power then round negative (digits * Nat.pow 10 power.toNat) 1
  else round negative digits (Nat.pow 10 (-power).toNat)

/-! ## Arithmetic -/

/-- The product, rounded. -/
def mul (a b : Double) : Option Double :=
  let e := a.exponent + b.exponent
  let m := a.mantissa * b.mantissa
  let negative := a.negative != b.negative
  if 0 ≤ e then round negative (m <<< e.toNat) 1 else round negative m (1 <<< (-e).toNat)

/-- The quotient, rounded; the divisor is not zero. -/
def div (a b : Double) : Option Double :=
  let e := a.exponent - b.exponent
  let negative := a.negative != b.negative
  if 0 ≤ e then round negative (a.mantissa <<< e.toNat) b.mantissa
  else round negative a.mantissa (b.mantissa <<< (-e).toNat)

/-- The value with the other sign. -/
def neg (d : Double) : Double := { d with negative := !d.negative }

/-! ## Order -/

/-- The mantissa with its sign. -/
def signed (d : Double) : Int := if d.negative then -(d.mantissa : Int) else d.mantissa

/-- The order of the values; the two zeros are equal. -/
def compare (a b : Double) : Ordering :=
  let low := min a.exponent b.exponent
  let above (d : Double) : Nat := 1 <<< (d.exponent - low).toNat
  Ord.compare (a.signed * above a) (b.signed * above b)

/-- The order of an integer and a double. -/
def compareInt (n : Int) (d : Double) : Ordering :=
  if 0 ≤ d.exponent then Ord.compare n (d.signed * (1 <<< d.exponent.toNat : Nat))
  else Ord.compare (n * (1 <<< (-d.exponent).toNat : Nat)) d.signed

@[simp] theorem compare_self (d : Double) : d.compare d = .eq := by
  simp [compare, Ord.compare, compareOfLessAndEq]

end Double

end Views
