import Views.Number
import Views.Number.Decimal

/-!
# Numerals in JSON texts

Digits are gathered into a word of 64 bits; digits that no longer fit count only by their place. A
numeral without point and exponent that fits is an integer. Any other one is the double of the
gathered word, multiplied or divided once by the double of a power of ten, so it can miss the
nearest double in its last place; one beyond the largest double is refused.
-/

set_option autoImplicit false

namespace Views.Json

open Extended (digitValue)

/-- The digits read so far as one word, and the power of ten to apply to it. -/
structure Numeral where
  negative : Bool
  word : Nat
  power : Int

/-- Appends a digit to a word, if the result still fits 64 bits. -/
def pushDigit? (word : Nat) (c : Char) : Option Nat :=
  let next := 10 * word + digitValue c
  if next < 1 <<< 64 then some next else none

/-- Gathers digits into a word until one does not fit; gives the word, how many digits it took and
the text after them. -/
def gather (word : Nat) (s : List Char) : Nat × Nat × List Char :=
  match s with
  | [] => (word, 0, [])
  | c :: rest =>
    if c.isDigit then
      match pushDigit? word c with
      | some next =>
        let (w, n, after) := gather next rest
        (w, n + 1, after)
      | none => (word, 0, s)
    else (word, 0, s)

/-- The double of a power of ten up to 308. -/
def powerOfTen? (n : Nat) : Option Double := if n ≤ 308 then Double.ofDecimal? false 1 n else none

/-- Divides by `10 ^ 308` while the power is below every power in reach. -/
def scaleDown (f : Double) (power : Int) : Nat → Option Double
  | 0 => none
  | left + 1 =>
    match powerOfTen? power.natAbs with
    | some ten => f.div ten
    | none =>
      if f.isZero then some f
      else
        (powerOfTen? 308).bind fun ten =>
          (f.div ten).bind fun g => scaleDown g (power + 308) left

/-- The double of a numeral. -/
def Numeral.toDouble? (n : Numeral) : Option Double :=
  (Double.ofInt? n.word).bind fun f =>
    let unsigned :=
      if 0 ≤ n.power then
        match powerOfTen? n.power.toNat with
        | some ten => f.mul ten
        | none => if f.isZero then some f else none
      else scaleDown f n.power 4
    unsigned.map fun d => if n.negative then d.neg else d

/-- Ends a numeral with the number of its double. -/
def Numeral.finish (n : Numeral) (rest : List Char) : Option (Number × List Char) :=
  n.toDouble?.map fun d => (.double d, rest)

/-- Reads the exponent behind its letter. One too long for a word of 31 bits leaves zero, unless the
number would be too large. -/
def Numeral.exponent? (n : Numeral) (s : List Char) : Option (Number × List Char) :=
  let (down, digits) := Extended.splitSign s
  let ds := digits.takeWhile Char.isDigit
  let rest := digits.dropWhile Char.isDigit
  let e := Extended.ofDigits ds
  if ds.isEmpty then none
  else if e < 1 <<< 31 then
    Numeral.finish { n with power := if down then n.power - e else n.power + e } rest
  else if n.word ≠ 0 ∧ !down then none
  else some (.double (.zero n.negative), rest)

/-- Reads the exponent, if there is one. -/
def Numeral.afterDigits? (n : Numeral) (s : List Char) : Option (Number × List Char) :=
  match s with
  | 'e' :: rest => n.exponent? rest
  | 'E' :: rest => n.exponent? rest
  | _ => n.finish s

/-- Reads the fraction behind its point; it has a digit. -/
def Numeral.fraction? (n : Numeral) (s : List Char) : Option (Number × List Char) :=
  let (word, count, rest) := gather n.word s
  if (s.takeWhile Char.isDigit).isEmpty then none
  else Numeral.afterDigits? { n with word := word, power := n.power - count }
    (rest.dropWhile Char.isDigit)

/-- The number of a numeral without point and exponent whose digits all fit. -/
def wholeNumber? (negative : Bool) (word : Nat) : Option Number :=
  if !negative then some (.integer word)
  else if word ≠ 0 ∧ word ≤ 1 <<< 63 then some (.integer (-(word : Int)))
  else (Double.ofInt? word).map fun d => .double d.neg

/-- Reads a numeral without its sign; a leading zero stands alone. -/
def magnitude? (negative : Bool) (s : List Char) : Option (Number × List Char) :=
  let ds := s.takeWhile Char.isDigit
  let after := s.dropWhile Char.isDigit
  let (word, count, _) := gather 0 s
  let dropped := ds.length - count
  let n : Numeral := ⟨negative, word, dropped⟩
  if ds.isEmpty then none
  else if ds.head? = some '0' ∧ 1 < ds.length then none
  else
    match after with
    | '.' :: rest => n.fraction? rest
    | 'e' :: rest => n.exponent? rest
    | 'E' :: rest => n.exponent? rest
    | _ =>
      if dropped = 0 then (wholeNumber? negative word).map fun number => (number, after)
      else n.finish after

/-- Reads a numeral at the start of a text. -/
def numeral? (s : List Char) : Option (Number × List Char) :=
  match s with
  | '-' :: rest => magnitude? true rest
  | _ => magnitude? false s

/-- The number of a text that is a numeral and nothing else. -/
def number? (text : String) : Option Number :=
  match numeral? text.toList with
  | some (n, []) => some n
  | _ => none

end Views.Json
