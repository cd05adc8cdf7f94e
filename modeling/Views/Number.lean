import Views.Number.Shortest

/-!
# Numbers

A number is an integer or a double. The two kinds stay apart in texts and under equality (`1` and
`1.0` are different values), and are ordered by their exact values.
-/

set_option autoImplicit false

namespace Views

/-- An integer or a double. -/
inductive Number where
  | integer (n : Int)
  | double (d : Double)
  deriving DecidableEq

namespace Number

/-- The text of a number. -/
def toText : Number → String
  | integer n => toString n
  | double d => d.toText

/-- Whether an integer has a place among the 64-bit words, signed or unsigned. -/
def inWord (n : Int) : Bool := -(1 <<< 63 : Nat) ≤ n && n < (1 <<< 64 : Nat)

/-- Equality within one kind; the two zeros of the doubles are equal. -/
def same : Number → Number → Bool
  | integer m, integer n => m == n
  | double a, double b => a.compare b == .eq
  | _, _ => false

/-- The order of the exact values. -/
def compare : Number → Number → Ordering
  | integer m, integer n => Ord.compare m n
  | integer m, double b => Double.compareInt m b
  | double a, integer n => (Double.compareInt n a).swap
  | double a, double b => a.compare b

/-- Whether a number counts as true: a double must have a full mantissa. -/
def isTrue : Number → Bool
  | integer n => n != 0
  | double d => d.isNormal

end Number

end Views
