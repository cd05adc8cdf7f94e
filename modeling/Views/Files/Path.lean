/-!
# Paths

Paths are texts and stay as they were written: joining adds at most one slash, and nothing is
normalized.
-/

set_option autoImplicit false

namespace Views.Files

/-- Whether a path starts at the root. -/
@[irreducible] def isAbsolute (path : String) : Bool := ['/'].isPrefixOf path.toList

/-- Whether a text has an ending. -/
@[irreducible] def hasEnding (text ending : String) : Bool := ending.toList.isSuffixOf text.toList

/-- The path of `child` seen from `base`. An absolute child stands for itself, and so does any child
of the empty base; a base that ends in a slash gets no second one. -/
def join (base child : String) : String :=
  if isAbsolute child then child
  else if base = "" ∨ hasEnding base "/" then base ++ child
  else base ++ "/" ++ child

/-- A name without one ending, if it has it. -/
def dropEnding (name ending : String) : String :=
  if hasEnding name ending then String.ofList (name.toList.take (name.length - ending.length))
  else name

theorem isAbsolute_iff {path : String} : isAbsolute path = true ↔ ['/'] <+: path.toList := by
  rw [isAbsolute, List.isPrefixOf_iff_prefix]

theorem hasEnding_iff {text ending : String} :
    hasEnding text ending = true ↔ ending.toList <:+ text.toList := by
  rw [hasEnding, List.isSuffixOf_iff_suffix]

/-- A relative path with forward slashes only. -/
def forwardSlashes (path : String) : String := path.map fun c => if c = '\\' then '/' else c

end Views.Files
