import Views.Engine.Program
import Views.Files.Path

/-!
# Registering partials

Partials are files below one directory, registered under their paths relative to it, without the
ending. They are registered from a scan of the whole directory or by name, one after the other up
to the first that cannot be read or compiled. A scan that registers all it finds is not repeated.
-/

set_option autoImplicit false

namespace Views

/-- The directory of the partials and the ending of their files. -/
structure PartialSource where
  root : String
  extname : String

namespace PartialSource

/-- Whether there is a directory at all. -/
def enabled (s : PartialSource) : Bool := s.root != ""

/-- The name of a partial, from its path relative to the directory. -/
def partialName (s : PartialSource) (path : String) : String :=
  Files.dropEnding (Files.forwardSlashes path) s.extname

/-- Reads a file and registers it. -/
def registerFile (s : PartialSource) (path : String) : Attempt Unit := do
  let source ← Attempt.of (Program.request (.read (Files.join s.root path)))
  Attempt.of (Program.request (.registerPartial (s.partialName path) source))

/-- Registers files in order up to the first failure; gives how many, and whether these are all. -/
def registerFiles (s : PartialSource) : List String → Program (Nat × Bool)
  | [] => return (0, true)
  | path :: rest => do
    match ← (s.registerFile path).run with
    | .error _ => return (0, false)
    | .ok () =>
      let (n, all) ← s.registerFiles rest
      return (n + 1, all)

/-- Registers the partials of some names. -/
def registerNamed (s : PartialSource) (names : List String) : Program Nat := do
  if s.enabled then
    let (n, _) ← s.registerFiles (names.map (· ++ s.extname))
    return n
  else return 0

/-- Registers all partials of the directory. -/
def registerAll (s : PartialSource) : Program Nat := do
  if s.enabled then
    match ← Program.request (.list s.root s.extname) with
    | .error _ => return 0
    | .ok files =>
      let (n, all) ← s.registerFiles files
      if all then Program.request .storeScan
      return n
  else return 0

/-- Scans the directory, unless that has succeeded before. -/
def ensureScanned (s : PartialSource) : Program Unit := do
  if s.enabled then
    if ← Program.request .recallScan then return ()
    else
      let _ ← s.registerAll
      return ()

end PartialSource

end Views
