import Views.Config.Load

/-!
# The log of the command line

The command line keeps a log below the user's directory of data. Its level comes from the arguments
or the configuration; a level that is not known is reported and then disregarded.
-/

set_option autoImplicit false

namespace Views.Cli

open Files (FileSystem)

/-- How much is logged. -/
inductive LogLevel where
  | trace
  | debug
  | info
  | warn
  | error
  deriving DecidableEq

/-- A letter in upper case, as far as the names of the levels need it: the dotless `ı` is a small
`I` too, and no other letter beyond ASCII has one of their letters as its upper case. -/
def upperLetter (c : Char) : Char := if c = 'ı' then 'I' else c.toUpper

/-- The level of a name, in upper or lower case. -/
def LogLevel.ofName? (name : String) : Option LogLevel :=
  match name.map upperLetter with
  | "TRACE" => some .trace
  | "DEBUG" => some .debug
  | "INFO" => some .info
  | "WARN" | "WARNING" => some .warn
  | "ERROR" => some .error
  | _ => none

/-- What is reported about the name of a level. -/
def levelWarning (name : Option String) : String :=
  match name with
  | none => ""
  | some name =>
    if (LogLevel.ofName? name).isSome then ""
    else "Warning: Unknown log-level '" ++ name ++ "', defaulting to INFO\n"

/-- The directory of the log, below the user's directory of data or the working directory. -/
def logDirectory (dataHome : Option String) : String :=
  Files.join (Config.ownDirectory (dataHome.getD ".")) "logs"

/-- The file of the log. -/
def logFile (dataHome : Option String) : String := Files.join (logDirectory dataHome) "hbsview.log"

variable {m : Type → Type} [Monad m] (fs : FileSystem m)

/-- Makes the file of the log. The directory comes first, then the warning about the level, then the
file. -/
def openLog (dataHome : Option String) (level : Option String) :
    m (String × Except Report Unit) := do
  let failed (what fault : String) : Except Report Unit :=
    .error (.context "Failed to setup logging" (.context what (.of fault)))
  match ← fs (.makeDirectories (logDirectory dataHome)) with
  | .error fault => return ("", failed "Failed to create log directory" fault.message)
  | .ok () =>
    match ← fs (.createFile (logFile dataHome)) with
    | .error fault =>
      return (levelWarning level, failed "Failed to create log file" fault.message)
    | .ok () => return (levelWarning level, .ok ())

end Views.Cli
