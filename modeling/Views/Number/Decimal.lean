import Views.Number.Double

/-!
# Decimal texts of reals

`Extended.parse?` reads a decimal text: an optional sign, digits with an optional point (a digit on
at least one side of it) and an optional exponent, or one of the names of infinity and of the value
that is no number. A finite text denotes the double nearest to it, and infinity if it lies beyond
the largest one.
-/

set_option autoImplicit false

namespace Views

/-- A double, an infinity, or the value that is no number. -/
inductive Extended where
  | finite (d : Double)
  | infinite (negative : Bool)
  | nan
  deriving DecidableEq

namespace Extended

/-- The value of a character as a decimal digit. -/
def digitValue (c : Char) : Nat := c.toNat - 48

/-- The number that a run of digits denotes. -/
def ofDigits (ds : List Char) : Nat := ds.foldl (fun n c => 10 * n + digitValue c) 0

/-- Splits off a sign and says whether it is minus. -/
def splitSign (s : List Char) : Bool × List Char :=
  match s with
  | '-' :: rest => (true, rest)
  | '+' :: rest => (false, rest)
  | _ => (false, s)

/-- The double nearest to `digits · 10 ^ power`, or infinity. Powers far outside the range of
doubles are answered by their size alone. -/
def ofDecimal (negative : Bool) (digits : Nat) (power : Int) : Extended :=
  let size : Int := power + (Nat.toDigits 10 digits).length
  if digits = 0 ∨ size < -400 then finite (Double.zero negative)
  else if 400 < size then infinite negative
  else
    match Double.ofDecimal? negative digits power with
    | some d => finite d
    | none => infinite negative

/-- Reads an exponent up to the end of the text; no exponent is the exponent zero. -/
def exponent? (s : List Char) : Option Int :=
  match s with
  | [] => some 0
  | c :: rest =>
    if c.toLower = 'e' then
      let (negative, ds) := splitSign rest
      if ds.isEmpty || !ds.all Char.isDigit then none
      else some (if negative then -(ofDigits ds : Int) else ofDigits ds)
    else none

/-- Reads digits with an optional point and exponent. -/
def magnitude? (negative : Bool) (s : List Char) : Option Extended :=
  let whole := s.takeWhile Char.isDigit
  let rest := s.dropWhile Char.isDigit
  let fraction := match rest with
    | '.' :: more => more.takeWhile Char.isDigit
    | _ => []
  let after := match rest with
    | '.' :: more => more.dropWhile Char.isDigit
    | _ => rest
  if whole.isEmpty && fraction.isEmpty then none
  else
    (exponent? after).map fun e =>
      ofDecimal negative (ofDigits (whole ++ fraction)) (e - fraction.length)

/-- Reads a decimal text. -/
def parse? (text : String) : Option Extended :=
  let (negative, s) := splitSign text.toList
  let name := String.ofList (s.map Char.toLower)
  if name = "inf" ∨ name = "infinity" then some (infinite negative)
  else if name = "nan" then some nan
  else magnitude? negative s

end Extended

end Views
