import DirectorySearch.Text.Utf8

/-! What the program asks of the system that it runs on. -/

namespace DirectorySearch

inductive SystemError where
  | notFound
  | alreadyExists
  | notADirectory
  | isADirectory
  | nameTooLong
  /-- A name has the character of code zero in it. -/
  | invalidName
  | invalidText
  | other (text : String)
deriving Repr, BEq, DecidableEq

def SystemError.message : SystemError → String
  | .notFound => "No such file or directory (os error 2)"
  | .alreadyExists => "File exists (os error 17)"
  | .notADirectory => "Not a directory (os error 20)"
  | .isADirectory => "Is a directory (os error 21)"
  | .nameTooLong => "File name too long (os error 36)"
  | .invalidName => "file name contained an unexpected NUL byte"
  | .invalidText => "stream did not contain valid UTF-8"
  | .other text => text

structure Host (m : Type → Type) where
  /-- A variable of the environment. -/
  lookup : String → m (Option String)
  isFile : String → m Bool
  isDirectory : String → m Bool
  readFile : String → m (Except SystemError (List UInt8))
  readInput : m (Except SystemError (List UInt8))
  /-- Makes a directory in one that is there. -/
  makeDirectory : String → m (Except SystemError Unit)
  /-- Starts the log file of the day in a directory. -/
  startLog : String → m (Except SystemError Unit)

/-- Octets that were read, as the text that they spell. -/
def SystemError.decode (octets : Except SystemError (List UInt8)) : Except SystemError String :=
  match octets with
  | .error e => .error e
  | .ok octets =>
    match Utf8.decode? octets with
    | some text => .ok (.ofList text)
    | none => .error .invalidText

end DirectorySearch
