import Views.Cli.Arguments
import Views.Cli.Command
import Views.Cli.Log
import Views.Config.Load
import Views.Engine.World

/-!
# Running the command line

`run` takes the arguments of the program to what it writes and its exit code: it loads the
configuration, makes the log, and carries out the command. The first of these that fails ends it.
-/

set_option autoImplicit false

namespace Views.Cli

open Files (FileSystem)

/-- What the program ends with. -/
structure Outcome where
  code : Nat
  stdout : String
  stderr : String
  deriving DecidableEq

/-- The directories of the user. -/
structure UserDirectories where
  config : Option String
  data : Option String

/-- The directories of the user from variables of the environment. A variable counts if it is an
absolute path; else the directory is below the home directory. -/
def UserDirectories.ofVariables (home config data : Option String) : UserDirectories :=
  let below (given : Option String) (path : String) :=
    (given.filter Files.isAbsolute).or
      ((home.filter (· ≠ "")).map fun home => Files.join home path)
  ⟨below config ".config", below data ".local/share"⟩

/-- The name and version of the program. -/
def versionText : String := "hv 0.1.0\n"

/-- How the program is used. -/
def usageText : String :=
  lines ["Render views with layouts, partials and content blocks", "",
    "Usage: hv [OPTIONS] <COMMAND>", "",
    "Commands:",
    "  render <NAME>  Render a view [--locals, --state, --request, -t/--theme]",
    "  partials       List the partials",
    "  layout <NAME>  Show the layout of a view", "",
    "Options:",
    "  -c, --config <PATH>     The file of the configuration",
    "  -l, --log-level <NAME>  The level of the log",
    "  -v, --view-path <PATH>  The directory of the views",
    "      --no-cache          Compile templates for every render",
    "  -h, --help              Show this text",
    "  -V, --version           Show the version"]

/-- What the arguments are refused with. -/
def Stop.message : Stop → String
  | unknownArgument => "unexpected argument"
  | unknownCommand => "unrecognized subcommand"
  | missingName => "the name of a view is required"
  | repeatedOption => "an option cannot be used multiple times"
  | invalidValue => "a value is required for an option"
  | unwantedValue => "an option takes no value"
  | help | version | nothingGiven => ""
  | missingCommand => "a subcommand is required"

/-- The end of a run whose arguments lead to no command; help and the version are no failure. -/
def Stop.outcome : Stop → Outcome
  | .help => ⟨0, usageText, ""⟩
  | .version => ⟨0, versionText, ""⟩
  | .nothingGiven => ⟨2, "", usageText⟩
  | stop => ⟨2, "", "error: " ++ stop.message ++ "\n"⟩

/-- The end of a run after a warning. -/
def Outcome.of (warning : String) : Except Report String → Outcome
  | .ok text => ⟨0, text, warning⟩
  | .error report => ⟨1, "", warning ++ report.text⟩

/-- A configuration with what the arguments say in its place. -/
def Invocation.applyTo (i : Invocation) (config : Config) : Config :=
  { config with
    viewPath := i.viewPath.getD config.viewPath
    disableCache := config.disableCache || i.noCache }

variable {m : Type → Type} [Monad m] (fs : FileSystem m)

/-- Runs a program of a new engine. -/
def withEngine (config : Config) (program : Engine → Program (Except Report String)) :
    m (Except Report String) :=
  match Engine.build config (Engine.freshRegistry config.templateOptions) with
  | .error err => pure (.error err.report)
  | .ok (e, registry) => do
    let (answer, _) ← (program e).runOn fs (Stores.fresh registry config.caching)
    return answer

/-- Carries out a command; the result is what it writes. -/
def Command.run (config : Config) : Command → m (Except Report String)
  | .render name locals state request theme =>
    match RenderData.ofTexts locals state request with
    | .error report => pure (.error report)
    | .ok data => withEngine fs config fun e => renderText e name data theme
  | .partials => do
    let stores := Stores.fresh (Engine.freshRegistry config.templateOptions) config.caching
    let (names, _) ← (partialNames config).runOn fs stores
    return names.map lines
  | .layout name => withEngine fs config fun e => do
    let shown ← layoutOf e name
    return shown.map ShownLayout.text

/-- Runs the program. -/
def run (home : UserDirectories) (args : List String) : m Outcome :=
  match Invocation.ofArguments args with
  | .error stop => pure stop.outcome
  | .ok i => do
    match ← Config.load fs i.config home.config with
    | .error report =>
      return .of "" (.error (.context "Failed to load configuration" report))
    | .ok config =>
      match ← openLog fs home.data (i.logLevel.or config.logLevel) with
      | (warning, .error report) => return .of warning (.error report)
      | (warning, .ok ()) =>
        let result ← i.command.run fs (i.applyTo config)
        return .of warning result

end Views.Cli
