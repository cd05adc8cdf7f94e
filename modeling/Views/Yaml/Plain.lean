import Views.Number.Decimal
import Views.Value
import Views.Yaml.Scalar

/-!
# Values of scalars

What a scalar stands for where no type is expected. A plain scalar can be null, a truth value, an
integer or a real; any other one is a text, and so is every quoted one. A tag of the standard set
asks for one kind, and a tag of its own is refused.
-/

set_option autoImplicit false

namespace Views.Yaml

/-- The names of null. -/
def isNull (s : String) : Bool := s == "null" || s == "Null" || s == "NULL" || s == "~"

/-- The truth value of a name. -/
def flagOf? (s : String) : Option Bool :=
  if s = "true" ∨ s = "True" ∨ s = "TRUE" then some true
  else if s = "false" ∨ s = "False" ∨ s = "FALSE" then some false
  else none

/-! ## Numbers -/

/-- The value of a digit in a base of at most sixteen. -/
def digitOf? (base : Nat) (c : Char) : Option Nat :=
  (Json.hexValue? c).filter (· < base)

/-- The number that digits denote in a base. -/
def ofDigits? (base : Nat) (ds : List Char) : Option Nat :=
  if ds.isEmpty then none
  else (ds.mapM (digitOf? base)).map fun ns => ns.foldl (fun n d => base * n + d) 0

/-- Whether a text is more than one digit, the first of them zero, behind an optional sign. -/
def hasLeadingZero (s : List Char) : Bool :=
  let ds := match s with
    | '-' :: rest => rest
    | '+' :: rest => rest
    | _ => s
  1 < ds.length && ds.head? == some '0' && ds.all Char.isDigit

/-- The number that a text without a sign denotes. -/
def magnitude? (s : List Char) : Option Nat :=
  match s with
  | '0' :: 'x' :: ds => ofDigits? 16 ds
  | '0' :: 'o' :: ds => ofDigits? 8 ds
  | '0' :: 'b' :: ds => ofDigits? 2 ds
  | ds => if hasLeadingZero ds then none else ofDigits? 10 ds

/-- The integer that a text denotes. -/
def integer? (s : List Char) : Option Int :=
  match s with
  | '-' :: rest => (magnitude? rest).map fun n => -(n : Int)
  | '+' :: rest => (magnitude? rest).map fun n => (n : Int)
  | _ => (magnitude? s).map fun n => (n : Int)

/-- What a text is as an integer. -/
inductive Whole where
  /-- It is no integer, or one beyond 128 bits. -/
  | no
  | small (n : Int)
  /-- It is an integer of more than 64 and at most 128 bits. -/
  | large
  deriving DecidableEq

/-- What a text is as an integer. -/
def wholeOf (s : String) : Whole :=
  match integer? s.toList with
  | none => .no
  | some n =>
    if Number.inWord n then .small n
    else if -(1 <<< 127 : Nat) ≤ n ∧ n < (1 <<< 128 : Nat) then .large
    else .no

/-- The real that a text denotes. -/
def real? (s : String) : Option Extended :=
  let unsigned := match s.toList with
    | '+' :: rest => rest
    | s => s
  let twice := s.startsWith "+" && (unsigned.head? == some '+' || unsigned.head? == some '-')
  let u := String.ofList unsigned
  if twice then none
  else if u = ".inf" ∨ u = ".Inf" ∨ u = ".INF" then some (.infinite false)
  else if s = "-.inf" ∨ s = "-.Inf" ∨ s = "-.INF" then some (.infinite true)
  else if s = ".nan" ∨ s = ".NaN" ∨ s = ".NAN" then some .nan
  else (Extended.parse? u).filter fun e => match e with
    | .finite _ => true
    | _ => false

/-- The value of a real; one that is not finite has none. -/
def ofReal : Extended → Value
  | .finite d => .number (.double d)
  | _ => .null

/-! ## Scalars -/

/-- The value of a plain scalar without a tag. -/
def plainValue? (s : String) : Option Value :=
  if s = "" ∨ isNull s then some .null
  else
    match flagOf? s, wholeOf s with
    | some b, _ => some (.bool b)
    | none, .small n => some (.number (.integer n))
    | none, .large => none
    | none, .no =>
      if hasLeadingZero s.toList then some (.string s)
      else some (((real? s).map ofReal).getD (.string s))

/-- The common start of the standard tags. -/
def standard : String := "tag:yaml.org,2002:"

/-- Whether a tag is one of its own. -/
def isOwnTag (tag : Option String) : Bool := tag.any (·.startsWith "!")

/-- The value of a scalar. -/
def scalarValue? (tag : Option String) (s : String) (style : Style) : Option Value :=
  match tag with
  | none => if style = .plain then plainValue? s else some (.string s)
  | some t =>
    if isOwnTag tag then none
    else if t = standard ++ "bool" then (flagOf? s).map .bool
    else if t = standard ++ "int" then
      match wholeOf s with
      | .small n => some (.number (.integer n))
      | _ => none
    else if t = standard ++ "float" then (real? s).map ofReal
    else if t = standard ++ "null" then (if isNull s then some .null else none)
    else some (.string s)

end Views.Yaml
