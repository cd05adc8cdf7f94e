/-!
# Options of the command line

The options, the commands, and which options may stand where. An argument stands either before the
command or after it; the options of the program may stand in both places, those of a command only
after it.
-/

set_option autoImplicit false

namespace Views.Cli

/-- An option. -/
inductive Switch where
  | config
  | logLevel
  | viewPath
  | noCache
  | locals
  | state
  | request
  | theme
  | help
  | version
  deriving DecidableEq

/-- What an option takes. -/
inductive SwitchKind where
  /-- Nothing. -/
  | flag
  /-- A text, which may be empty. -/
  | text
  /-- A path, which is never empty. -/
  | path
  deriving DecidableEq

namespace Switch

/-- What an option takes. -/
def kind : Switch → SwitchKind
  | config | viewPath => .path
  | noCache | help | version => .flag
  | _ => .text

/-- The long name of an option, written after two dashes. -/
def long : Switch → String
  | config => "config"
  | logLevel => "log-level"
  | viewPath => "view-path"
  | noCache => "no-cache"
  | locals => "locals"
  | state => "state"
  | request => "request"
  | theme => "theme"
  | help => "help"
  | version => "version"

/-- The letter of an option, written after one dash. -/
def letter? : Switch → Option Char
  | config => some 'c'
  | logLevel => some 'l'
  | viewPath => some 'v'
  | theme => some 't'
  | help => some 'h'
  | version => some 'V'
  | _ => none

end Switch

/-- A command. -/
inductive Verb where
  | render
  | partials
  | layout
  deriving DecidableEq

/-- The command of a name. -/
def Verb.of? (name : String) : Option Verb :=
  if name = "render" then some .render
  else if name = "partials" then some .partials
  else if name = "layout" then some .layout
  else none

/-- The word that asks for help on a command. -/
def helpWord : String := "help"

/-- Where an argument stands: before the command, or after one. -/
abbrev Level := Option Verb

namespace Level

/-- The options that may stand at both places. -/
def everywhere : List Switch := [.config, .logLevel, .viewPath, .noCache, .help]

/-- The options that may stand at a place. -/
def switches : Level → List Switch
  | none => .version :: everywhere
  | some .render => [.locals, .state, .request, .theme] ++ everywhere
  | some .partials | some .layout => everywhere

/-- The option of a long name. -/
def long? (level : Level) (name : String) : Option Switch :=
  level.switches.find? fun s => s.long == name

/-- The option of a letter. -/
def letter? (level : Level) (letter : Char) : Option Switch :=
  level.switches.find? fun s => s.letter? == some letter

/-- How many words may stand at a place. -/
def places : Level → Nat
  | some .render | some .layout => 1
  | some .partials | none => 0

/-- Whether a word is a command or asks for help. -/
def reserves (level : Level) (word : String) : Bool :=
  level.isNone && ((Verb.of? word).isSome || word == helpWord)

end Level

end Views.Cli
