/-!
# Aligned numbers

Numbers in a margin are aligned to the right. A number too long for the margin is written in full.
-/

set_option autoImplicit false

namespace Views.Text

/-- The number of columns of a margin. -/
def margin : Nat := 4

/-- A number aligned to the right in a margin. -/
def aligned (n : Nat) : String :=
  let digits := toString n
  String.ofList (List.replicate (margin - digits.length) ' ') ++ digits

end Views.Text
