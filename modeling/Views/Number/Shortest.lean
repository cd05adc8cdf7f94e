import Views.Number.Double

/-!
# The shortest decimal of a double

The text of a double has the fewest digits that read back to it. The reals that round to a double
form an interval, its ends included if the mantissa is even; for 1, 2, … 17 digits the two points of
that decimal grid beside the value are tried, and the nearer one inside the interval is taken, of
two equally near ones the even one.

`Double.toText` lays the digits out: positional from `1e-5` up to below `1e16`, always with a
fraction, and with a signed exponent beyond.
-/

set_option autoImplicit false

namespace Views.Double

/-- The decimal `digits · 10 ^ power`. -/
structure Decimal where
  digits : Nat
  power : Int
  deriving DecidableEq, Repr

/-- The interval of reals that round to a double, and the value itself, over one denominator. -/
structure Interval where
  low : Nat
  value : Nat
  high : Nat
  den : Nat
  /-- Whether the ends belong to the interval. -/
  closed : Bool

/-- The interval of a double without its sign. Its upper half-width is half a unit of the mantissa,
and so is the lower one, unless the double is the least with its exponent. -/
def interval (d : Double) : Interval :=
  let m := d.mantissa
  let narrow := m = 1 <<< 52 ∧ -1074 < d.exponent
  let e := d.exponent - 2
  let scale : Nat := 1 <<< e.toNat
  { low := (4 * m - if narrow then 1 else 2) * scale
    value := 4 * m * scale
    high := (4 * m + 2) * scale
    den := 1 <<< (-e).toNat
    closed := m % 2 = 0 }

/-- The power `p` with `10 ^ p ≤ num / den < 10 ^ (p + 1)`, for nonzero `num` and `den`. -/
def floorLog10 (num den : Nat) : Int :=
  if den ≤ num then ((Nat.toDigits 10 (num / den)).length : Int) - 1
  else
    let k := (Nat.toDigits 10 (den / num)).length
    if num * Nat.pow 10 (k - 1) = den then 1 - (k : Int) else -(k : Int)

/-- The point of the grid of multiples of `10 ^ power` that lies in the interval and is nearest to
the value, if there is one. -/
def Interval.onGrid? (i : Interval) (power : Int) : Option Decimal :=
  let up : Nat := Nat.pow 10 (-power).toNat
  let unit : Nat := i.den * Nat.pow 10 power.toNat
  let low := i.low * up
  let value := i.value * up
  let high := i.high * up
  let inside (c : Nat) : Bool :=
    if i.closed then low ≤ c * unit && c * unit ≤ high else low < c * unit && c * unit < high
  let below := value / unit
  let above := below + 1
  let down := value - below * unit
  let rise := above * unit - value
  let nearest := if down < rise ∨ (down = rise ∧ below % 2 = 0) then below else above
  let other := if nearest = below then above else below
  if inside nearest then some ⟨nearest, power⟩
  else if inside other then some ⟨other, power⟩
  else none

/-- Tries grids of more and more digits. -/
def Interval.firstOnGrid (i : Interval) (top : Int) : Nat → Nat → Option Decimal
  | _, 0 => none
  | count, left + 1 =>
    match i.onGrid? (top - count + 1) with
    | some decimal => some decimal
    | none => i.firstOnGrid top (count + 1) left

/-- The decimal with the fewest digits that rounds to a nonzero double, without its sign. -/
def shortest (d : Double) : Decimal :=
  let i := d.interval
  (i.firstOnGrid (floorLog10 i.value i.den) 1 17).getD ⟨0, 0⟩

/-- How the text of a double is laid out. -/
structure TextForm where
  /-- The least decimal exponent written positionally. -/
  positionalFrom : Int
  /-- The least decimal exponent beyond which an exponent is written again. -/
  positionalBelow : Int

/-- Positional from `1e-5` up to below `1e16`. -/
def textForm : TextForm := ⟨-5, 16⟩

/-- The digits without the zeros at their end. -/
def significant (digits : Nat) : List Char :=
  ((Nat.toDigits 10 digits).reverse.dropWhile (· == '0')).reverse

/-- The text of a decimal: its significant digits, laid out around the point. -/
def Decimal.toText (form : TextForm) (decimal : Decimal) : String :=
  let exponent : Int := decimal.power + (Nat.toDigits 10 decimal.digits).length - 1
  let digits := significant decimal.digits
  let zeros (n : Nat) : List Char := List.replicate n '0'
  if form.positionalFrom ≤ exponent ∧ exponent < form.positionalBelow then
    if exponent < 0 then
      String.ofList ('0' :: '.' :: zeros (-exponent - 1).toNat ++ digits)
    else
      let whole := exponent.toNat + 1
      let fraction := digits.drop whole
      String.ofList (digits.take whole ++ zeros (whole - digits.length) ++ '.' ::
        if fraction.isEmpty then ['0'] else fraction)
  else
    let mark := if exponent < 0 then "e-" else "e+"
    String.ofList (digits.take 1 ++ (if digits.length ≤ 1 then [] else '.' :: digits.drop 1)) ++
      mark ++ toString exponent.natAbs

/-- The text of a double. -/
def toText (d : Double) : String :=
  (if d.negative then "-" else "") ++ (if d.isZero then "0.0" else d.shortest.toText textForm)

end Views.Double
