import Views.Compiler

/-!
# Programs of the engine

What the engine does is a program: a tree of requests to the world around it (files, the compiler,
and the stores that outlive a render) and of the continuations for their answers. One request is
one step that nothing else can interrupt, so several renders at once interleave their requests.
-/

set_option autoImplicit false

namespace Views

/-- A request of the engine. -/
inductive Request where
  /-- The text of a file. -/
  | read (path : String)
  /-- Whether a file is there. -/
  | probe (path : String)
  /-- The files below a directory whose names have an ending. -/
  | list (root ending : String)
  | compile (key source : String)
  | registerPartial (name source : String)
  | execute (template : Compiled) (locals : Fields) (scope : Scope)
  /-- The path that was found for a name. -/
  | recallPath (name : String)
  | storePath (name path : String)
  /-- The entry of the cache for a name. -/
  | recallEntry (name : String)
  | storeEntry (name : String) (entry : CacheEntry)
  /-- The default layout in the cache. -/
  | recallDefault
  | storeDefault (layout : Compiled)
  /-- A number that no compilation has had yet. -/
  | nextNumber
  /-- Whether the directory of partials was scanned as a whole. -/
  | recallScan
  | storeScan

/-- The answer to a request. -/
abbrev Request.Answer : Request → Type
  | read _ => Except ViewError String
  | probe _ => Bool
  | list _ _ => Except ViewError (List String)
  | compile _ _ => Except ViewError Compiled
  | registerPartial _ _ => Except ViewError Unit
  | execute _ _ _ => Except ViewError String × Scope
  | recallPath _ => Option String
  | storePath _ _ => Unit
  | recallEntry _ => Option CacheEntry
  | storeEntry _ _ => Unit
  | recallDefault => Option Compiled
  | storeDefault _ => Unit
  | nextNumber => Nat
  | recallScan => Bool
  | storeScan => Unit

/-- A program: it ends with a result, or asks for something and goes on with the answer. -/
inductive Program (α : Type) where
  | done (a : α)
  | ask (r : Request) (next : r.Answer → Program α)

namespace Program

variable {α β : Type}

/-- One program after another. -/
def bind (p : Program α) (f : α → Program β) : Program β :=
  match p with
  | done a => f a
  | ask r next => ask r fun answer => (next answer).bind f

instance : Monad Program where
  pure := done
  bind := bind

/-- The program of one request. -/
def request (r : Request) : Program r.Answer := ask r done

theorem bind_assoc {γ : Type} (p : Program α) (f : α → Program β) (g : β → Program γ) :
    (p.bind f).bind g = p.bind fun a => (f a).bind g := by
  induction p with
  | done => rfl
  | ask r next ih => simp only [bind, ih]

end Program

/-- A program that can fail. -/
abbrev Attempt := ExceptT ViewError Program

/-- A request whose answer can be an error. -/
def Attempt.of {α : Type} (p : Program (Except ViewError α)) : Attempt α := p

end Views
