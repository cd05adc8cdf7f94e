import Views.Engine.Program
import Views.Files.Operation

/-!
# The world of the engine

What answers the requests of a program: the files, and the stores, which are the registry of
compiled templates and what is kept between renders. `World.perform` answers one request and
`Program.run` a whole program; `Program.runOn` runs a program on the stores and a file system.
-/

set_option autoImplicit false

namespace Views

/-- What the engine keeps. -/
structure Stores where
  registry : Registry
  cache : Cache
  /-- The paths found for names. -/
  paths : Table String
  /-- Whether the directory of partials was scanned as a whole. -/
  scanned : Bool
  /-- The number of compilations so far. -/
  number : Nat

/-- The stores of an engine that has done nothing yet. -/
def Stores.fresh (registry : Registry) (caching : Bool) : Stores where
  registry := registry
  cache := Cache.empty caching
  paths := []
  scanned := false
  number := 0

/-- The state around a program. -/
structure World extends Stores where
  files : Files.FileTree

namespace World

/-- The answer to a request, and the world after it. -/
def perform (w : World) : (r : Request) → r.Answer × World
  | .read path => ((w.files.read path).mapError fun fault => .io path (.system fault), w)
  | .probe path => (w.files.isFile path, w)
  | .list root ending => (w.files.list root ending, w)
  | .compile key source =>
    match w.registry.compile key source with
    | .ok (template, registry) => (.ok template, { w with registry })
    | .error e => (.error e, w)
  | .registerPartial name source =>
    match w.registry.registerPartial name source with
    | .ok registry => (.ok (), { w with registry })
    | .error e => (.error e, w)
  | .execute template locals scope => (w.registry.execute template (.object locals) scope, w)
  | .recallPath name => (w.paths.get? name, w)
  | .storePath name path => ((), { w with paths := w.paths.insert name path })
  | .recallEntry name => (w.cache.get? name, w)
  | .storeEntry name entry => ((), { w with cache := w.cache.insert name entry })
  | .recallDefault => (w.cache.defaultLayout?, w)
  | .storeDefault layout => ((), { w with cache := w.cache.setDefaultLayout layout })
  | .nextNumber => (w.number, { w with number := w.number + 1 })
  | .recallScan => (w.scanned, w)
  | .storeScan => ((), { w with scanned := true })

end World

/-- A request with its answer. -/
abbrev Step := (r : Request) × r.Answer

/-- What is left of a run: the result, the world, and the steps in order. -/
structure Run (α : Type) where
  result : α
  world : World
  steps : List Step

/-- Runs a program from a world, with nothing else going on. -/
def Program.run {α : Type} (p : Program α) (w : World) : Run α :=
  match p with
  | .done a => ⟨a, w, []⟩
  | .ask r next =>
    let (answer, w) := w.perform r
    let rest := (next answer).run w
    { rest with steps := ⟨r, answer⟩ :: rest.steps }

/-! ## Other file systems -/

section

variable {m : Type → Type} [Monad m] (fs : Files.FileSystem m)

/-- The answer to a request on some file system; what is not about files is answered by the stores
alone. -/
def Stores.perform (s : Stores) : (r : Request) → m (r.Answer × Stores)
  | .read path => do
    return ((← fs (.read path)).mapError fun fault => .io path (.system fault), s)
  | .probe path => do return (← fs (.probe path), s)
  | .list root ending => do return (← fs (.list root ending), s)
  | r =>
    let (answer, w) := World.perform ⟨s, .empty⟩ r
    pure (answer, w.toStores)

/-- Runs a program on some file system. -/
def Program.runOn {α : Type} (p : Program α) (s : Stores) : m (α × Stores) :=
  match p with
  | .done a => pure (a, s)
  | .ask r next => do
    let (answer, s) ← s.perform fs r
    (next answer).runOn s

end

end Views
