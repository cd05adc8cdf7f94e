import Views.Files.Walk

/-!
# Operations on files

What the command line asks of a file system, as data. A file system performs operations in the
monad of its effects; for a file tree the effect is on the tree.
-/

set_option autoImplicit false

namespace Views.Files

/-- An operation on files. -/
inductive Operation where
  /-- The text of a file. -/
  | read (path : String)
  /-- Whether a path leads to a file. -/
  | probe (path : String)
  /-- The files below a directory whose names have an ending. -/
  | list (root ending : String)
  /-- Makes a directory and those above it that are missing. -/
  | makeDirectories (path : String)
  /-- Makes an empty file, or empties the one that is there. -/
  | createFile (path : String)

/-- The answer to an operation. -/
abbrev Operation.Answer : Operation → Type
  | read _ => Except SystemFault String
  | probe _ => Bool
  | list _ _ => Except ViewError (List String)
  | makeDirectories _ => Except SystemFault Unit
  | createFile _ => Except SystemFault Unit

/-- What performs operations. -/
abbrev FileSystem (m : Type → Type) := (o : Operation) → m o.Answer

namespace FileTree

/-- Keeps a changed tree, or the fault that prevented the change. -/
def keep (changed : Except SystemFault FileTree) : StateM FileTree (Except SystemFault Unit) :=
  match changed with
  | .ok t => do
    set t
    return .ok ()
  | .error fault => return .error fault

/-- A file tree as a file system. -/
def perform : FileSystem (StateM FileTree)
  | .read path => do return (← get).read path
  | .probe path => do return (← get).isFile path
  | .list root ending => do return (← get).list root ending
  | .makeDirectories path => do keep ((← get).makeDirectories path)
  | .createFile path => do keep ((← get).createFile path)

end FileTree

end Views.Files
