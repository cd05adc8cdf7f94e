import Views.Files.Fault
import Views.Files.Path
import Views.Table

/-!
# File trees

A file system as a value: directories of named entries, files, and symbolic links. Names are texts.
A path is resolved from the working directory one component at a time; links are followed, at most
forty in one path. A place in the tree is the list of names that leads to it from the root without
links.

A directory says whether its names may be read and whether its entries may be found by their names.
The one does not need the other: a listing gets the names, with the kinds of the entries, from the
directory itself.
-/

set_option autoImplicit false

namespace Views.Files

/-- What may be done with a directory. -/
structure Access where
  /-- The names of its entries may be read. -/
  readable : Bool
  /-- Its entries may be found by their names. -/
  searchable : Bool
  deriving DecidableEq

/-- An entry of a directory. -/
inductive Entry where
  /-- A file with its text; none if its bytes are no text. -/
  | file (text : Option String)
  /-- A directory with what may be done with it. -/
  | guarded (access : Access) (entries : List (String × Entry))
  | link (target : String)

/-- A directory that may be read and searched. -/
@[match_pattern]
abbrev Entry.directory (entries : List (String × Entry)) : Entry := .guarded ⟨true, true⟩ entries

/-- A place: the names on the way from the root. -/
abbrev Place := List String

/-- The entry at a place below an entry. -/
def Entry.at? (e : Entry) : Place → Option Entry
  | [] => some e
  | name :: rest =>
    match e with
    | .guarded _ entries => (Table.get? entries name).bind fun child => child.at? rest
    | _ => none

/-- Changes the entry at a place; directories that are missing on the way are made. -/
def Entry.change (e : Entry) (f : Option Entry → Option Entry) : Place → Option Entry
  | [] => f (some e)
  | name :: rest =>
    match e with
    | .guarded access entries =>
      let child := match rest with
        | [] => f (Table.get? entries name)
        | _ => ((Table.get? entries name).getD (.directory [])).change f rest
      match child with
      | some child => some (.guarded access (Table.insert entries name child))
      | none => some (.guarded access (entries.filter fun entry => entry.1 != name))
    | _ => some e

/-- A file system with a working directory. -/
structure FileTree where
  root : Entry
  working : Place

namespace FileTree

/-- A file system that holds nothing. -/
def empty : FileTree := ⟨.directory [], []⟩

/-- The number of links that one path may lead through. -/
def maxLinks : Nat := 40

/-- The components of a path. -/
def components (path : String) : List String :=
  ((path.toList.splitOn '/').map String.ofList).filter fun c => c != ""

/-- The components of the target of a link. A slash at its end asks for a directory, which an empty
component stands for; a dot behind it would have that directory searched. -/
def targetComponents (target : String) : List String :=
  components target ++ if hasEnding target "/" then [""] else []

/-- The longest name of an entry in bytes. -/
def maxName : Nat := 255

/-- The longest path in bytes. -/
def maxPath : Nat := 4095

/-- Where the components of a path lead from a place. `links` more links may be followed; the last
component is followed only if `last` says so, and may be missing only if `missing` says so. -/
def step (t : FileTree) (last missing : Bool) (links : Nat) (place : Place) (cs : List String) :
    Except SystemFault Place :=
  match cs with
  | [] => .ok place
  | c :: rest =>
    match t.root.at? place with
    | some (.guarded access entries) =>
      if c = "" then step t last missing links place rest
      else if !access.searchable then .error .permissionDenied
      else if c = "." then step t last missing links place rest
      else if c = ".." then step t last missing links place.dropLast rest
      else if maxName < c.utf8ByteSize then .error .nameTooLong
      else
        match Table.get? entries c with
        | none => if missing && rest.isEmpty then .ok (place ++ [c]) else .error .notFound
        | some (.link target) =>
          if rest.isEmpty && !last then .ok (place ++ [c])
          else
            match links with
            | 0 => .error .tooManyLinks
            | links + 1 =>
              let start := if isAbsolute target then [] else place
              step t last missing links start (targetComponents target ++ rest)
        | some _ => step t last missing links (place ++ [c]) rest
    | some _ => .error .notADirectory
    | none => .error .notFound
termination_by (links, cs.length)

/-- Where a path leads, before a trailing slash is looked at. -/
def placeOf (t : FileTree) (last missing : Bool) (path : String) : Except SystemFault Place :=
  if '\x00' ∈ path.toList then .error .nulByte
  else if path = "" then .error .notFound
  else if maxPath < path.utf8ByteSize then .error .nameTooLong
  else
    let start := if isAbsolute path then [] else t.working
    t.step (last || hasEnding path "/") missing maxLinks start (components path)

/-- Where a path leads, and the entry there. A path that ends in a slash or a dot leads to a
directory. -/
def find (t : FileTree) (follow : Bool) (path : String) : Except SystemFault (Place × Entry) := do
  let place ← t.placeOf follow false path
  match t.root.at? place with
  | none => throw .notFound
  | some (.guarded access entries) => pure (place, .guarded access entries)
  | some e => if hasEnding path "/" then throw .notADirectory else pure (place, e)

/-- Whether a path leads to a file. -/
def isFile (t : FileTree) (path : String) : Bool :=
  match t.find true path with
  | .ok (_, .file _) => true
  | _ => false

/-- Whether a path leads to a directory. -/
def isDirectory (t : FileTree) (path : String) : Bool :=
  match t.find true path with
  | .ok (_, .guarded _ _) => true
  | _ => false

/-- Why the directory that a path leads to cannot be opened, if it cannot. -/
def refusal? (t : FileTree) (path : String) : Option SystemFault :=
  match t.find true path with
  | .error fault => some fault
  | .ok (_, .guarded access _) => if access.readable then none else some .permissionDenied
  | .ok _ => none

/-- The text of the file that a path leads to. -/
def read (t : FileTree) (path : String) : Except SystemFault String := do
  match ← t.find true path with
  | (_, .file (some text)) => pure text
  | (_, .file none) => throw .notText
  | (_, .guarded access _) =>
    throw (if access.readable then .isADirectory else .permissionDenied)
  | (_, .link _) => throw .tooManyLinks

/-! ## Changes -/

/-- Puts an entry at a place. -/
def put (t : FileTree) (place : Place) (e : Entry) : FileTree :=
  { t with root := (t.root.change (fun _ => some e) place).getD t.root }

/-- Makes a directory; its parent must be there. -/
def makeDirectory (t : FileTree) (path : String) : Except SystemFault FileTree := do
  let place ← t.placeOf false true path
  match t.root.at? place with
  | some _ => throw .alreadyExists
  | none => pure (t.put place (.directory []))

/-- The paths of a path and the directories above it, the path itself first. -/
def ancestry (path : String) : List String :=
  let start := if isAbsolute path then "/" else ""
  let cs := components path
  ((List.range (cs.length + 1)).reverse.map fun n => start ++ "/".intercalate (cs.take n)).filter
    (· != "")

/-- Makes a directory and those above it that are missing; the paths go upwards from it. -/
def makeDirectoriesOf (t : FileTree) : List String → Except SystemFault FileTree
  | [] => .error .notFound
  | path :: above =>
    match t.makeDirectory path with
    | .ok t => .ok t
    | .error .notFound => do
      let t ← t.makeDirectoriesOf above
      match t.makeDirectory path with
      | .ok t => pure t
      | .error e => if t.isDirectory path then pure t else throw e
    | .error e => if t.isDirectory path then .ok t else .error e

/-- Makes a directory and those above it that are missing. -/
def makeDirectories (t : FileTree) (path : String) : Except SystemFault FileTree :=
  t.makeDirectoriesOf (ancestry path)

/-- Makes an empty file, or empties the one that is there. -/
def createFile (t : FileTree) (path : String) : Except SystemFault FileTree := do
  let place ← t.placeOf true true path
  match t.root.at? place with
  | some (.guarded _ _) => throw .isADirectory
  | _ => pure (t.put place (.file (some "")))

/-- Removes the entry at a path. -/
def remove (t : FileTree) (path : String) : FileTree :=
  match t.placeOf false false path with
  | .ok place => { t with root := (t.root.change (fun _ => none) place).getD t.root }
  | .error _ => t

end FileTree

end Views.Files
