import DirectorySearch.Search.Settings
import DirectorySearch.Settings.Log

/-!
All settings of the program, and the variables that override them.

The variables are looked at in a fixed order. One that does not hold a value of its setting ends the
matter: what came before it has been set, it and what comes after it has not.
-/

namespace DirectorySearch

structure Settings where
  search : SearchSettings := {}
  logging : LogSettings := {}
deriving Repr, BEq, DecidableEq

namespace Settings

def toJson (s : Settings) : Json :=
  .object [("translator", s.search.toJson),
    ("logging", .object [("level", .string s.logging.level), ("format", .string s.logging.format.name),
      ("output", .string s.logging.output.name), ("directory", .string s.logging.directory)])]

inductive Variable where
  | searchScope
  | unsearchableColumns
  | restrictToObjectClass
  | logLevel
  | logFormat
  | logOutput
  | logDirectory
deriving Repr, BEq, DecidableEq

namespace Variable

def name : Variable → String
  | .searchScope => "LDAPSQL_SEARCH_SCOPE"
  | .unsearchableColumns => "LDAPSQL_UNSEARCHABLE_COLUMNS"
  | .restrictToObjectClass => "LDAPSQL_RESTRICT_TO_OBJECT_CLASS"
  | .logLevel => "RUST_LOG"
  | .logFormat => "LOG_FORMAT"
  | .logOutput => "LOG_OUTPUT"
  | .logDirectory => "LOG_DIR"

/-- The order in which variables are looked at. -/
def all : List Variable :=
  [.searchScope, .unsearchableColumns, .restrictToObjectClass, .logLevel, .logFormat, .logOutput,
    .logDirectory]

end Variable

/-- A variable that holds no value of its setting. -/
structure OverrideError where
  setting : Variable
  reason : String
deriving Repr, BEq, DecidableEq

def OverrideError.message (e : OverrideError) : String :=
  s!"Invalid value for {e.setting.name}: {e.reason}"

/-- Reads yes or no, in any case and with blanks around it. -/
def flag? (value : String) : Option Bool :=
  match Text.asciiLower (.ofList (Text.trim value.toList)) with
  | "1" | "true" | "yes" | "on" => some true
  | "0" | "false" | "no" | "off" => some false
  | _ => none

/-- Sets what a variable stands for, or says why its value will not do. -/
def set (s : Settings) (v : Variable) (value : String) : Except String Settings :=
  match v with
  | .searchScope =>
    match SearchScope.parse value with
    | .ok scope => .ok { s with search.scope := scope }
    | .error e => .error e.message
  | .unsearchableColumns =>
    match UnsearchablePolicy.parse value with
    | .ok policy => .ok { s with search.unsearchable := policy }
    | .error e => .error e.message
  | .restrictToObjectClass =>
    match flag? value with
    | some flag => .ok { s with search.restrictToObjectClass := flag }
    | none => .error s!"not a boolean: {value}"
  | .logLevel => .ok { s with logging.level := value }
  | .logFormat =>
    match LogFormat.parse value with
    | .ok format => .ok { s with logging.format := format }
    | .error e => .error e.message
  | .logOutput =>
    match LogOutput.parse value with
    | .ok output => .ok { s with logging.output := output }
    | .error e => .error e.message
  | .logDirectory => .ok { s with logging.directory := value }

/-- Sets variables in turn, up to the first that fails. -/
def setEach (lookup : Variable → Option String) : List Variable → Settings → Settings × Option OverrideError
  | [], s => (s, none)
  | v :: vs, s =>
    match lookup v with
    | none => setEach lookup vs s
    | some value =>
      match s.set v value with
      | .ok s => setEach lookup vs s
      | .error reason => (s, some ⟨v, reason⟩)

/-- The settings after the variables that are set, and what stopped them. -/
def override (s : Settings) (lookup : Variable → Option String) : Settings × Option OverrideError :=
  setEach lookup Variable.all s

end Settings

end DirectorySearch
