import Views.Error
import Views.Files.Tree

/-!
# Listing a directory

A listing walks a directory depth first, the entries of each directory in increasing order of their
names, and gives the paths, relative to the start, of the files whose own name has an ending. Links
are followed. A directory that cannot be opened by its path, a link that cannot be followed, and a
link back to a directory that the walk is inside of end the listing with an error. A file is listed
from its directory alone, also where its path does not lead to it. Following a link
enters a directory that the walk is not inside of, so the number of directories bounds how many
links one walk is behind.
-/

set_option autoImplicit false

namespace Views.Files

/-- A directory that the walk is inside of: its path and its place. -/
structure Ancestor where
  path : String
  place : Place

/-- Where a walk stands: where it started, the path and the place of its directory, the names from
the start to it, and the directories that it is inside of, the innermost first. -/
structure Stand where
  start : String
  path : String
  place : Place
  relative : String
  inside : List Ancestor

/-- The stand one directory further down; `place` is where the directory is. -/
def Stand.down (s : Stand) (name : String) (place : Place) : Stand :=
  let path := join s.path name
  { start := s.start, path, place, relative := join s.relative name,
    inside := ⟨path, place⟩ :: s.inside }

/-- The relative path of a file with a matching name. -/
def Stand.file (s : Stand) (ending name : String) : List String :=
  if hasEnding name ending then [join s.relative name] else []

/-- The error of a walk at a path. -/
def walkError (path : String) (fault : SystemFault) : ViewError := .io path (.walk path fault)

/-- Lists what a link leads to; `enter` lists a directory behind a link. -/
def listLink (t : FileTree) (ending : String)
    (enter : Stand → List (String × Entry) → Except ViewError (List String)) (s : Stand)
    (name : String) : Except ViewError (List String) :=
  let path := join s.path name
  match t.find true path with
  | .error fault => .error (walkError path fault)
  | .ok (place, .guarded access entries) =>
    if !access.readable then .error (.io s.start (.opening .permissionDenied))
    else
      match s.inside.find? fun a => a.place == place with
      | some a => .error (.io path (.loop path a.path))
      | none => enter (s.down name place) entries
  | .ok (_, .file _) => .ok (s.file ending name)
  | .ok (_, .link _) => .error (walkError path .tooManyLinks)

mutual

/-- Lists what is found at an entry of a directory. -/
def listEntry (t : FileTree) (ending : String)
    (enter : Stand → List (String × Entry) → Except ViewError (List String)) (s : Stand)
    (name : String) : Entry → Except ViewError (List String)
  | .file _ => .ok (s.file ending name)
  | .guarded _ entries =>
    match t.refusal? (join s.path name) with
    | some fault => .error (walkError (join s.path name) fault)
    | none => listEntries t ending enter (s.down name (s.place ++ [name])) entries
  | .link _ => listLink t ending enter s name

/-- Lists the entries of a directory in their order. -/
def listEntries (t : FileTree) (ending : String)
    (enter : Stand → List (String × Entry) → Except ViewError (List String)) (s : Stand) :
    List (String × Entry) → Except ViewError (List String)
  | [] => .ok []
  | (name, e) :: rest => do
    let here ← listEntry t ending enter s name e
    let more ← listEntries t ending enter s rest
    pure (here ++ more)

end

/-- Lists a directory behind at most `links` links. -/
def listBehind (t : FileTree) (ending : String) :
    Nat → Stand → List (String × Entry) → Except ViewError (List String)
  | 0, s, _ => .error (walkError s.path .tooManyLinks)
  | links + 1, s, entries => listEntries t ending (listBehind t ending links) s entries

mutual

/-- The number of directories in an entry. -/
def Entry.directories : Entry → Nat
  | .guarded _ entries => 1 + directoriesOf entries
  | _ => 0

/-- The number of directories in some entries. -/
def directoriesOf : List (String × Entry) → Nat
  | [] => 0
  | (_, e) :: rest => e.directories + directoriesOf rest

end

/-- The name that a path ends in. -/
def lastName (path : String) : String :=
  ((FileTree.components path).filter (· != ".")).getLast?.getD path

/-- Lists a directory: the relative paths of the files whose names have the ending. A file is
listed as the empty path if its own name has the ending. -/
def FileTree.list (t : FileTree) (path ending : String) : Except ViewError (List String) :=
  match t.find true path with
  | .error fault => .error (walkError path fault)
  | .ok (place, .guarded access entries) =>
    if access.readable then
      listBehind t ending (t.root.directories + 1) ⟨path, path, place, "", [⟨path, place⟩]⟩ entries
    else
      match t.find false path with
      | .ok (_, .link _) => .error (.io path (.opening .permissionDenied))
      | _ => .error (walkError path .permissionDenied)
  | .ok (_, .file _) => .ok (if hasEnding (lastName path) ending then [""] else [])
  | .ok (_, .link _) => .error (walkError path .tooManyLinks)

end Views.Files
