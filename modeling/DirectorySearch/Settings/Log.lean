import DirectorySearch.Text.Blank

/-! What can be chosen about the log, and the names of the choices. -/

namespace DirectorySearch

inductive LogFormat where
  | pretty
  | json
  | compact
deriving Repr, BEq, DecidableEq

/-- A name that a choice about the log does not have, in lower case. -/
inductive LogSettingError where
  | unknownFormat (name : String)
  | unknownOutput (name : String)
deriving Repr, BEq, DecidableEq

def LogSettingError.message : LogSettingError → String
  | .unknownFormat name => s!"unknown log format '{name}'"
  | .unknownOutput name => s!"unknown log output '{name}'"

namespace LogFormat

def name : LogFormat → String
  | .pretty => "pretty"
  | .json => "json"
  | .compact => "compact"

def all : List LogFormat := [.pretty, .json, .compact]

/-- The format with exactly this name. -/
def ofName? (name : String) : Option LogFormat :=
  all.find? (·.name == name)

/-- Reads a format in any case. -/
def parse (value : String) : Except LogSettingError LogFormat :=
  let name := Text.asciiLower value
  match ofName? name with
  | some format => .ok format
  | none => .error (.unknownFormat name)

end LogFormat

/-- Where the log goes. Results go to the standard output, so the log never does. -/
inductive LogOutput where
  | stderr
  | file
  | both
deriving Repr, BEq, DecidableEq

namespace LogOutput

def name : LogOutput → String
  | .stderr => "stderr"
  | .file => "file"
  | .both => "both"

def all : List LogOutput := [.stderr, .file, .both]

/-- The output with exactly this name. -/
def ofName? (name : String) : Option LogOutput :=
  all.find? (·.name == name)

/-- Reads an output in any case. -/
def parse (value : String) : Except LogSettingError LogOutput :=
  let name := Text.asciiLower value
  match ofName? name with
  | some output => .ok output
  | none => .error (.unknownOutput name)

/-- Whether a log file is kept. -/
def keepsFile : LogOutput → Bool
  | .stderr => false
  | .file | .both => true

end LogOutput

structure LogSettings where
  level : String := "warn"
  format : LogFormat := .pretty
  output : LogOutput := .stderr
  directory : String := "./logs"
deriving Repr, BEq, DecidableEq

end DirectorySearch
