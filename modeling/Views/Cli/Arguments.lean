import Views.Cli.Switch

/-!
# Reading arguments

`Invocation.ofArguments` reads the arguments of the program. The arguments before the command are
read up to it, then those after it. An option that takes a value takes it from its own argument or
from the next one, unless that starts with a dash; two dashes alone make all that follows words.

An option whose value is a whole argument stays open until the next option or word: only then is it
found to lack its value, or to repeat an earlier one. An argument that is unknown is refused before
that.
-/

set_option autoImplicit false

namespace Views.Cli

/-- Why the arguments lead to no command. -/
inductive Stop where
  | unknownArgument
  | unknownCommand
  /-- A command lacks the name of its view. -/
  | missingName
  | repeatedOption
  /-- An option lacks its value, or the value is empty and may not be. -/
  | invalidValue
  /-- An option has a value and takes none. -/
  | unwantedValue
  | help
  | version
  /-- There is no argument at all. -/
  | nothingGiven
  | missingCommand
  deriving DecidableEq

/-! ## The shape of an argument -/

/-- An argument by its shape. -/
inductive Argument where
  /-- Two dashes: only words follow. -/
  | wordsFollow
  /-- A long name, and the value after an equals sign. -/
  | long (name : String) (value : Option String)
  /-- Letters, and the value of the last one. -/
  | letters (letters : List Char)
  | word (text : String)

/-- A long name, and the value after its first equals sign. -/
def longArgument (cs : List Char) : Argument :=
  let name := String.ofList (cs.takeWhile (· != '='))
  match cs.dropWhile (· != '=') with
  | [] => .long name none
  | _ :: value => .long name (some (String.ofList value))

/-- The shape of an argument; one dash alone is a word. -/
def Argument.of (text : String) : Argument :=
  match text.toList with
  | ['-'] => .word text
  | ['-', '-'] => .wordsFollow
  | '-' :: '-' :: cs => longArgument cs
  | '-' :: cs => .letters cs
  | _ => .word text

/-! ## Reading one place -/

/-- What has been read at a place. -/
structure Reading where
  words : List String := []
  /-- The options with their values, in order. -/
  given : List (Switch × String) := []
  /-- The option that is still open, and its value if that has been read. -/
  pending : Option (Switch × Option String) := none
  /-- Whether only words follow. -/
  wordsFollow : Bool := false

namespace Reading

/-- The value that an option was given. -/
def value? (r : Reading) (s : Switch) : Option String := r.given.lookup s

/-- Whether an option was given. -/
def has (r : Reading) (s : Switch) : Bool := (r.value? s).isSome

/-- Whether the open option still needs its value. -/
def awaits (r : Reading) : Bool :=
  match r.pending with
  | some (_, none) => true
  | _ => false

/-- Gives an option its value. -/
def give (r : Reading) (s : Switch) (value : String) : Except Stop Reading :=
  if s = .help then .error .help
  else if s = .version then .error .version
  else if r.has s then .error .repeatedOption
  else if s.kind = .path ∧ value = "" then .error .invalidValue
  else .ok { r with given := r.given ++ [(s, value)] }

/-- Closes the open option. -/
def settle (r : Reading) : Except Stop Reading :=
  match r.pending with
  | none => .ok r
  | some (_, none) => .error .invalidValue
  | some (s, some value) => { r with pending := none }.give s value

/-- Reads an option and the value that is part of its argument. -/
def readSwitch (r : Reading) (s : Switch) (value : Option String) : Except Stop Reading :=
  match s.kind, value with
  | .flag, some _ => .error .unwantedValue
  | .flag, none => do (← r.settle).give s ""
  | _, some value => do (← r.settle).give s value
  | _, none => do
    let r ← r.settle
    pure { r with pending := some (s, none) }

/-- Reads the letters of an argument; what follows a letter that takes a value is the value. -/
def readLetters (level : Level) (r : Reading) : List Char → Except Stop Reading
  | [] => .ok r
  | c :: rest =>
    match level.letter? c with
    | none => .error .unknownArgument
    | some s =>
      if s.kind = .flag then do
        let r ← r.readSwitch s none
        readLetters level r rest
      else
        match rest with
        | [] => r.readSwitch s none
        | '=' :: value => r.readSwitch s (some (String.ofList value))
        | value => r.readSwitch s (some (String.ofList value))

/-- The refusal of a word that no place is left for. -/
def stray (level : Level) (r : Reading) (text : String) : Stop :=
  if level.isSome || (r.wordsFollow && level.reserves text) then .unknownArgument
  else .unknownCommand

/-- Reads a word that is no value. -/
def readWord (level : Level) (r : Reading) (text : String) : Except Stop Reading :=
  if r.words.length < level.places then do
    let r ← r.settle
    pure { r with words := r.words ++ [text] }
  else .error (r.stray level text)

/-- Reads one argument. -/
def readArgument (level : Level) (r : Reading) (text : String) : Except Stop Reading :=
  if r.wordsFollow then r.readWord level text
  else
    match Argument.of text with
    | .wordsFollow => .ok { r with wordsFollow := true }
    | .long name value =>
      match level.long? name with
      | some s => r.readSwitch s value
      | none => .error .unknownArgument
    | .letters cs => r.readLetters level cs
    | .word text =>
      match r.pending with
      | some (s, none) => .ok { r with pending := some (s, some text) }
      | _ => r.readWord level text

/-- Reads arguments up to the end, or up to a word that is a command or asks for help; gives that
word and the arguments after it. -/
def readArguments (level : Level) (r : Reading) :
    List String → Except Stop (Reading × Option (String × List String))
  | [] => .ok (r, none)
  | text :: rest =>
    if !r.wordsFollow && !r.awaits && level.reserves text then .ok (r, some (text, rest))
    else do
      let r ← r.readArgument level text
      readArguments level r rest

end Reading

/-! ## Reading all arguments -/

/-- What the program is to do. -/
inductive Command where
  /-- Render a view, with the texts of its data and a theme. -/
  | render (name : String) (locals state request theme : Option String)
  /-- List the partials. -/
  | partials
  /-- Show the layout of a view. -/
  | layout (name : String)
  deriving DecidableEq

/-- What the arguments say. -/
structure Invocation where
  config : Option String
  logLevel : Option String
  viewPath : Option String
  noCache : Bool
  command : Command
  deriving DecidableEq

/-- The answer to a request for help on some commands: there is one level of them. -/
def helpOn (topics : List String) : Stop :=
  match topics with
  | [] => .help
  | [topic] => if Level.reserves none topic then .help else .unknownCommand
  | _ => .unknownCommand

/-- The command that the arguments after it describe. -/
def commandOf (verb : Verb) (r : Reading) : Except Stop Command :=
  match verb, r.words with
  | .partials, _ => .ok .partials
  | .render, name :: _ =>
    .ok (.render name (r.value? .locals) (r.value? .state) (r.value? .request) (r.value? .theme))
  | .layout, name :: _ => .ok (.layout name)
  | _, [] => .error .missingName

/-- Reads the arguments of the program. What is given after the command counts more. -/
def Invocation.ofArguments (args : List String) : Except Stop Invocation := do
  match ← Reading.readArguments none {} args with
  | (before, none) =>
    let before ← before.settle
    throw (if before.given.isEmpty then .nothingGiven else .missingCommand)
  | (before, some (word, rest)) =>
    match Verb.of? word with
    | none => throw (helpOn rest)
    | some verb =>
      let (after, _) ← Reading.readArguments (some verb) {} rest
      let after ← after.settle
      let command ← commandOf verb after
      let before ← before.settle
      let value? (s : Switch) := (after.value? s).or (before.value? s)
      pure {
        config := value? .config
        logLevel := value? .logLevel
        viewPath := value? .viewPath
        noCache := (value? .noCache).isSome
        command }

end Views.Cli
