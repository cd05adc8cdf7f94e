/-!
# Faults of the file system

The causes for which a file cannot be read or a directory cannot be listed, with their texts.
-/

set_option autoImplicit false

namespace Views.Files

/-- Why the system refuses a path, or why its content is no text. -/
inductive SystemFault where
  | notFound
  | alreadyExists
  | notADirectory
  | isADirectory
  | nameTooLong
  | tooManyLinks
  | permissionDenied
  | notText
  | nulByte
  | other (text : String)
  deriving DecidableEq

/-- The text of a system fault. -/
def SystemFault.message : SystemFault → String
  | notFound => "No such file or directory (os error 2)"
  | alreadyExists => "File exists (os error 17)"
  | notADirectory => "Not a directory (os error 20)"
  | isADirectory => "Is a directory (os error 21)"
  | nameTooLong => "File name too long (os error 36)"
  | tooManyLinks => "Too many levels of symbolic links (os error 40)"
  | permissionDenied => "Permission denied (os error 13)"
  | notText => "stream did not contain valid UTF-8"
  | nulByte => "file name contained an unexpected NUL byte"
  | other text => text

/-- Why a path could not be read or listed. -/
inductive Fault where
  /-- The system refuses the path itself. -/
  | system (fault : SystemFault)
  /-- A walk through a directory meets an entry that the system refuses. -/
  | walk (path : String) (fault : SystemFault)
  /-- A walk cannot open the directory behind a link; it says so without the path. -/
  | opening (fault : SystemFault)
  /-- A walk meets a link to a directory that it is inside of. -/
  | loop (path ancestor : String)
  deriving DecidableEq

/-- The text of a fault. -/
def Fault.message : Fault → String
  | system fault => fault.message
  | walk path fault => "IO error for operation on " ++ path ++ ": " ++ fault.message
  | opening fault => fault.message
  | loop path ancestor =>
    "File system loop found: " ++ path ++ " points to an ancestor " ++ ancestor

/-- The text of a fault, and below it that of its cause. -/
def Fault.chain : Fault → List String
  | walk path fault => [(walk path fault).message, fault.message]
  | opening fault => [fault.message, fault.message]
  | fault => [fault.message]

end Views.Files
