import DirectorySearch.Command.Arguments
import DirectorySearch.Command.Directory
import DirectorySearch.Command.LogLevel
import DirectorySearch.Filter.Encoding
import DirectorySearch.Filter.Reader
import DirectorySearch.Filter.Writer
import DirectorySearch.Query.Decoding
import DirectorySearch.Search.Request
import DirectorySearch.Settings.Document

/-!
What a command line does: the settings are loaded, the log is started, and the command is run. The
first of these that fails is reported.
-/

namespace DirectorySearch

/-- Why settings could not be loaded. -/
inductive SettingsError where
  | unreadable (e : SystemError)
  | malformed
  | invalidOverride (e : Settings.OverrideError)
deriving Repr, BEq, DecidableEq

/-- Reading fails for a cause of its own, which is told again. -/
def SettingsError.message : SettingsError → String
  | .unreadable e => s!"Failed to read config file: {e.message}: {e.message}"
  | .malformed => "Failed to parse YAML: not a settings document"
  | .invalidOverride e => e.message

inductive LogError where
  | invalidLevel (level : String)
  /-- A part of a directive begins or ends within a character. -/
  | brokenLevel (level : String)
  | noDirectory (directory : String) (e : SystemError)
  | noFile (directory : String) (e : SystemError)
deriving Repr, BEq, DecidableEq

def LogError.message : LogError → String
  | .invalidLevel level => s!"invalid log level directive '{level}': not a list of directives"
  | .brokenLevel level => s!"log level '{level}' is cut within a character"
  | .noDirectory directory e => s!"failed to create log directory {directory}: {e.message}"
  | .noFile directory e => s!"failed to create a log file in {directory}: {e.message}"

/-- Whether the log breaks down, instead of being refused. -/
def LogError.isBreakdown : LogError → Bool
  | .brokenLevel _ => true
  | .noFile _ _ => true
  | _ => false

/-- Why a command line came to nothing. -/
inductive Failure where
  | settings (e : SettingsError)
  | log (e : LogError)
  | unreadableQuery (path : Option String) (e : SystemError)
  | invalidQuery (fault : Json.Fault)
  | untranslatable (problem : Problem)
  | invalidFilter (filter : String) (e : FilterError)

namespace Failure

/-- What was being done. -/
def context : Failure → String
  | .settings _ => "failed to load configuration"
  | .log _ => "failed to initialize logging"
  | .unreadableQuery (some path) _ => s!"failed to read query from {path}"
  | .unreadableQuery none _ => "failed to read query from stdin"
  | .invalidQuery _ => "invalid query JSON"
  | .untranslatable _ => "translation failed"
  | .invalidFilter filter _ => s!"invalid filter {filter}"

def cause : Failure → String
  | .settings e => e.message
  | .log e => e.message
  | .unreadableQuery _ e => e.message
  | .invalidQuery fault => fault.message
  | .untranslatable problem => problem.message
  | .invalidFilter _ e => e.message

def message (f : Failure) : String :=
  s!"{f.context}: {f.cause}"

/-- A log that breaks down has a code of its own. -/
def exitCode : Failure → UInt32
  | .log e => if e.isBreakdown then 101 else 1
  | _ => 1

end Failure

namespace Command

/-- The search for a query that is written in JSON. -/
def search (settings : SearchSettings) (query : String) (spacing : Spacing) : Except Failure String :=
  match Query.parse query with
  | .error fault => .error (.invalidQuery fault)
  | .ok q =>
    match SearchRequest.build settings q with
    | .error problem => .error (.untranslatable problem)
    | .ok d => .ok (Json.render spacing (.object (d.members ++ [("scope_value", .int d.scope.protocolValue)])))

/-- A filter in its canonical form, and its tree below. -/
def inspect (filter : String) : Except Failure String :=
  match Filter.parse filter with
  | .error e => .error (.invalidFilter filter e)
  | .ok f => .ok (f.render ++ "\n" ++ f.toJson.render .pretty)

/-- The file that settings are read from if it is there and no other is named. -/
def defaultSettingsFile : String := "ldapsql.yaml"

def programVersion : String := "ldapsql 0.1.0"

def usage : String :=
  "Usage: ldapsql [-c FILE] translate [--pretty] [QUERY_JSON]\n" ++
  "       ldapsql [-c FILE] check FILTER\n" ++
  "       ldapsql help [COMMAND]"

variable {m : Type → Type} [Monad m]

/-- Reads settings from a file. -/
def readSettings (host : Host m) (path : String) : m (Except SettingsError Settings) := do
  match SystemError.decode (← host.readFile path) with
  | .error e => return .error (.unreadable e)
  | .ok text =>
    match Settings.ofText? text with
    | none => return .error .malformed
    | some settings => return .ok settings

/-- The settings of a file that is named, of the default file if it is there, or else the defaults; then
    what the environment overrides. -/
def loadSettings (host : Host m) (path : Option String) : m (Except SettingsError Settings) := do
  let stored ← match path with
    | some path => readSettings host path
    | none =>
      if ← host.isFile defaultSettingsFile then readSettings host defaultSettingsFile
      else pure (.ok {})
  match stored with
  | .error e => return .error e
  | .ok settings =>
    let found ← Settings.Variable.all.mapM fun v => return (v, ← host.lookup v.name)
    match settings.override fun v => (found.lookup v).join with
    | (_, some e) => return .error (.invalidOverride e)
    | (settings, none) => return .ok settings

/-- Starts the log, if it is kept in a file. -/
def startLog (host : Host m) (settings : LogSettings) : m (Except LogError Unit) := do
  match LogLevel.check settings.level with
  | .error .malformed => return .error (.invalidLevel settings.level)
  | .error .brokenCharacter => return .error (.brokenLevel settings.level)
  | .ok () =>
    if settings.output.keepsFile then
      match ← Directory.make host settings.directory with
      | .error e => return .error (.noDirectory settings.directory e)
      | .ok () =>
        match ← host.startLog settings.directory with
        | .error e => return .error (.noFile settings.directory e)
        | .ok () => return .ok ()
    else return .ok ()

/-- Runs a command. -/
def execute (host : Host m) (settings : SearchSettings) : Command → m (Except Failure String)
  | .check filter => return inspect filter
  | .translate input pretty => do
    let path := inputPath input
    let octets ← match path with
      | some path => host.readFile path
      | none => host.readInput
    match SystemError.decode octets with
    | .error e => return .error (.unreadableQuery path e)
    | .ok query => return search settings query (if pretty then .pretty else .compact)

def invoke (host : Host m) (i : Invocation) : m (Except Failure String) := do
  match ← loadSettings host i.settingsFile with
  | .error e => return .error (.settings e)
  | .ok settings =>
    match ← startLog host settings.logging with
    | .error e => return .error (.log e)
    | .ok () => execute host settings.search i.command

/-- How a run ends: its exit code, and what goes to the standard output and to the standard error. -/
structure Report where
  exitCode : UInt32
  output : String := ""
  errors : String := ""

def Report.ofStop (stop : Stop) : Report :=
  match stop with
  | .help => { exitCode := stop.exitCode, output := usage ++ "\n" }
  | .version => { exitCode := stop.exitCode, output := programVersion ++ "\n" }
  | .usage => { exitCode := stop.exitCode, errors := usage ++ "\n" }

def Report.ofResult : Except Failure String → Report
  | .ok output => { exitCode := 0, output := output ++ "\n" }
  | .error f => { exitCode := f.exitCode, errors := s!"error: {f.message}\n" }

/-- Runs a command line. -/
def run (host : Host m) (words : List String) : m Report := do
  match Invocation.parse words with
  | .error stop => return .ofStop stop
  | .ok i => return .ofResult (← invoke host i)

end Command

end DirectorySearch
