import Views.Cli.Run

/-!
# The program

The command line on the files of the system. Everything but the operations on files themselves is
decided by `Cli.run`.
-/

set_option autoImplicit false

namespace Views.Disk

open Files (SystemFault walkError)
open System (FilePath)

/-! ## Faults -/

/-- The number of an error, which some calls give with a negative sign. -/
def errorNumber (code : UInt32) : Nat :=
  if code.toNat < 1 <<< 31 then code.toNat else (1 <<< 32) - code.toNat

/-- The number and the text that the system gives an error. -/
def systemError : IO.Error → Nat × String
  | .alreadyExists _ code text | .inappropriateType _ code text | .invalidArgument _ code text
  | .noSuchThing _ code text | .permissionDenied _ code text | .resourceExhausted _ code text
  | .noFileOrDirectory _ code text | .interrupted _ code text | .otherError code text
  | .resourceBusy code text | .resourceVanished code text | .unsupportedOperation code text
  | .hardwareFault code text | .unsatisfiedConstraints code text | .illegalOperation code text
  | .protocolError code text | .timeExpired code text => (errorNumber code, text)
  | .unexpectedEof => (0, "unexpected end of file")
  | .userError text => (0, text)

/-- The fault that an error stands for. -/
def faultOf (e : IO.Error) : SystemFault :=
  match systemError e with
  | (2, _) => .notFound
  | (13, _) => .permissionDenied
  | (17, _) => .alreadyExists
  | (20, _) => .notADirectory
  | (21, _) => .isADirectory
  | (36, _) => .nameTooLong
  | (40, _) => .tooManyLinks
  | (code, text) => .other (text ++ " (os error " ++ toString code ++ ")")

/-- Does something with a path, and gives the fault if it fails. -/
def attempt {α : Type} (path : String) (act : FilePath → IO α) : IO (Except SystemFault α) := do
  if path.toList.contains '\x00' then return .error .nulByte
  try return .ok (← act path)
  catch e => return .error (faultOf e)

/-! ## Operations -/

/-- What a path leads to. -/
def kindOf (path : String) : IO (Except SystemFault IO.FS.FileType) :=
  attempt path fun p => do return (← p.metadata).type

/-- Whether a path leads to an entry of a kind. -/
def isOfKind (kind : IO.FS.FileType) (path : String) : IO Bool := do
  match ← kindOf path with
  | .ok found => return found == kind
  | .error _ => return false

/-- The text of a file. -/
def readText (path : String) : IO (Except SystemFault String) := do
  match ← attempt path IO.FS.readBinFile with
  | .error fault => return .error fault
  | .ok bytes =>
    match String.fromUTF8? bytes with
    | some text => return .ok text
    | none => return .error .notText

/-- Makes a directory; the paths go from the directory upwards. -/
def makeDirectories : List String → IO (Except SystemFault Unit)
  | [] => return .error .notFound
  | path :: above => do
    let made ← match ← attempt path IO.FS.createDir with
      | .error .notFound =>
        match ← makeDirectories above with
        | .ok () => attempt path IO.FS.createDir
        | .error fault => return .error fault
      | made => pure made
    if ← isOfKind .dir path then return .ok () else return made

/-- The part of a listing that can fail. -/
abbrev Listing := ExceptT ViewError IO

/-- Does something with a path during a listing. -/
def visit {α : Type} (path : String) (act : FilePath → IO α) : Listing α := do
  match ← attempt path act with
  | .ok a => return a
  | .error fault => throw (walkError path fault)

/-- A directory that a listing is inside of: its path, and the same without links. -/
structure Enclosing where
  path : String
  resolved : String

/-- The kind of an entry of a directory, where a link is not followed. A directory gives its names
here without kinds, so the entry is looked up, by the path of the directory or by the same without
links. What cannot be looked up, as in a directory that may not be searched, counts as a file. -/
def kindIn (d : Enclosing) (name : String) : Listing IO.FS.FileType := do
  let found ← [d.path, d.resolved].findSomeM? fun path => do
    let kind ← attempt (Files.join path name) fun p => do return (← p.symlinkMetadata).type
    return kind.toOption
  return found.getD .file

/-- Lists a directory, which may be behind a link; `relative` is its path from the start. -/
partial def listBelow (ending start path relative : String) (linked : Bool)
    (inside : List Enclosing) : Listing (List String) := do
  let entries ← match ← attempt path fun p => p.readDir with
    | .ok entries => pure entries
    | .error fault => throw (if linked then .io start (.opening fault) else walkError path fault)
  let resolved := match ← attempt path fun p => IO.FS.realPath p with
    | .ok resolved => resolved.toString
    | .error _ => path
  if linked then
    if let some outer := inside.find? (·.resolved == resolved) then
      throw (.io path (.loop path outer.path))
  let names := Table.keys (Table.ofList (entries.toList.map fun e => (e.fileName, ())))
  let parts ← names.mapM fun name => do
    let here := Files.join path name
    let file := if Files.hasEnding name ending then [Files.join relative name] else []
    let below (linked : Bool) := listBelow ending start here (Files.join relative name) linked
      (⟨path, resolved⟩ :: inside)
    match ← kindIn ⟨path, resolved⟩ name with
    | .dir => below false
    | .file => return file
    | .symlink =>
      match (← visit here fun p => p.metadata).type with
      | .dir => below true
      | .file => return file
      | _ => return []
    | _ => return []
  return parts.flatten

/-- Lists the files whose names have an ending. -/
def list (root ending : String) : Listing (List String) := do
  match (← visit root fun p => p.metadata).type with
  | .dir =>
    let linked := (← visit root fun p => p.symlinkMetadata).type == .symlink
    listBelow ending root root "" linked []
  | .file => return if Files.hasEnding (Files.lastName root) ending then [""] else []
  | _ => return []

/-- Performs an operation on the files of the system. -/
def perform : Files.FileSystem IO
  | .read path => readText path
  | .probe path => isOfKind .file path
  | .list root ending => (list root ending).run
  | .makeDirectories path => makeDirectories (Files.FileTree.ancestry path)
  | .createFile path => attempt path fun p => IO.FS.writeFile p ""

end Views.Disk

/-- Runs the command line. -/
def main (args : List String) : IO UInt32 := do
  let home := Views.Cli.UserDirectories.ofVariables (← IO.getEnv "HOME")
    (← IO.getEnv "XDG_CONFIG_HOME") (← IO.getEnv "XDG_DATA_HOME")
  let outcome ← Views.Cli.run Views.Disk.perform home args
  IO.print outcome.stdout
  IO.eprint outcome.stderr
  if outcome.code == 1 then IO.eprintln ""
  return outcome.code.toUInt32
