import DirectorySearch.Command.Run
import Std.Time.DateTime

/-! The program: its command line, on the system that it runs on. -/

namespace DirectorySearch

/-- Whether a number that the system gives for an error is a code. Some calls give it negated. -/
def isErrorCode (number code : UInt32) : Bool :=
  number == code || number == 0 - code

def SystemError.ofError : IO.Error → SystemError
  | .noFileOrDirectory _ _ _ => .notFound
  | .alreadyExists _ _ _ => .alreadyExists
  | .inappropriateType _ code _ => if isErrorCode code 21 then .isADirectory else .notADirectory
  | .invalidArgument name code details =>
    if isErrorCode code 36 then .nameTooLong else .other (toString (IO.Error.invalidArgument name code details))
  | e => .other (toString e)

/-- Does something, and gives what goes wrong as a value. -/
def attempt {α : Type} (act : IO α) : IO (Except SystemError α) := do
  try
    return .ok (← act)
  catch e => return .error (.ofError e)

/-- Does something with a path, if there can be such a path. -/
def attemptAt {α : Type} (path : String) (act : IO α) : IO (Except SystemError α) := do
  if path.toList.contains '\x00' then return .error .invalidName
  else if path.isEmpty then return .error .notFound
  else attempt act

/-- The name of the log file of a day. -/
def logFileName (day : Std.Time.PlainDate) : String :=
  let two (n : Int) := if n < 10 then s!"0{n}" else s!"{n}"
  s!"ldapsql.log.{day.year.toInt}-{two day.month.val}-{two day.day.val}"

/-- The path of this day's log file in a directory. -/
def logFilePath (directory : String) : IO String := do
  let day := Std.Time.PlainDate.ofEpochDay (← Std.Time.Timestamp.now).toDaysSinceUnixEpoch
  return Directory.join directory (logFileName day)

def systemHost : Host IO where
  lookup name := IO.getEnv name
  isFile path := do
    match ← attempt (IO.FS.readBinFile path) with
    | .ok _ | .error (.other _) => return true
    | .error _ => return false
  isDirectory path := do
    match ← attemptAt path (IO.FS.readBinFile path) with
    | .error .isADirectory => return true
    | _ => return false
  readFile path := attemptAt path do return (← IO.FS.readBinFile path).toList
  readInput := attempt do return (← (← IO.getStdin).readBinToEnd).toList
  makeDirectory path := attemptAt path (IO.FS.createDir path)
  startLog directory := do
    let path ← logFilePath directory
    attemptAt path do let _ ← IO.FS.Handle.mk path .append

end DirectorySearch

def main (words : List String) : IO UInt32 := do
  let report ← DirectorySearch.Command.run DirectorySearch.systemHost words
  IO.print report.output
  IO.eprint report.errors
  return report.exitCode
