import Views.Number
import Views.Table

/-!
# Values

The data that templates, configurations and requests are made of. An object keeps its fields in
increasing order of their keys, so the order in which a template walks them is part of the value.
-/

set_option autoImplicit false

namespace Views

/-- A value: nothing, a truth value, a number, a text, a list or an object. -/
inductive Value where
  | null
  | bool (b : Bool)
  | number (n : Number)
  | string (s : String)
  | array (items : List Value)
  | object (fields : List (String × Value))

/-- The fields of an object. -/
abbrev Fields := Table Value

namespace Value

instance : Inhabited Value := ⟨null⟩

/-- The value of a natural number. -/
def ofNat (n : Nat) : Value := number (.integer n)

/-- The text, if the value is one. -/
def text? : Value → Option String
  | string s => some s
  | _ => none

/-! ## Equality -/

mutual

/-- Equality of values: numbers of different kinds differ. -/
def same : Value → Value → Bool
  | null, null => true
  | bool a, bool b => a == b
  | number m, number n => m.same n
  | string s, string t => s == t
  | array xs, array ys => sameItems xs ys
  | object fs, object gs => sameFields fs gs
  | _, _ => false

/-- Equality of lists of values. -/
def sameItems : List Value → List Value → Bool
  | [], [] => true
  | x :: xs, y :: ys => same x y && sameItems xs ys
  | _, _ => false

/-- Equality of fields, in order. -/
def sameFields : List (String × Value) → List (String × Value) → Bool
  | [], [] => true
  | (k, v) :: fs, (l, w) :: gs => k == l && same v w && sameFields fs gs
  | _, _ => false

end

/-! ## Text -/

mutual

/-- The text of a value inside a page: nothing for null, elements between brackets, and a
placeholder for an object. -/
def render : Value → String
  | null => ""
  | bool b => if b then "true" else "false"
  | number n => n.toText
  | string s => s
  | array xs => "[" ++ renderItems xs ++ "]"
  | object _ => "[object]"

/-- The texts of elements, between commas. -/
def renderItems : List Value → String
  | [] => ""
  | [x] => render x
  | x :: y :: rest => render x ++ ", " ++ renderItems (y :: rest)

end

/-! ## Truth -/

/-- Whether a value counts as true in a condition. -/
def isTrue (includeZero : Bool) : Value → Bool
  | null => false
  | bool b => b
  | number n => includeZero || n.isTrue
  | string s => s != ""
  | array xs => !xs.isEmpty
  | object fs => !fs.isEmpty

end Value

end Views
