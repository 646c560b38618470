import DirectorySearch.Command.Host

/-!
Making a directory with all those that it lies in.

The directory itself is tried first. Only where something on the way to it is missing are the ones
around it made, and then it is tried again.
-/

namespace DirectorySearch.Directory

/-- Whether a path starts at the root. -/
def isAbsolute (path : String) : Bool :=
  path.toList.head? == some '/'

/-- The path of a name in a directory. -/
def join (directory name : String) : String :=
  if directory.isEmpty || directory.toList.getLast? == some '/' then directory ++ name
  else directory ++ "/" ++ name

/-- The steps of a path, as it is written. -/
def steps (path : String) : List String :=
  (path.toList.splitOn '/').map String.ofList

/-- Whether a step leads on. -/
def isName (s : String) : Bool :=
  s != "" && s != "."

/-- The steps that lead on. A dot is kept at the start of a path. -/
def names (path : String) : List String :=
  match steps path with
  | "." :: r => "." :: r.filter isName
  | r => r.filter isName

/-- What the place that names lead to lies in, from the inside out. The names are given in reverse. -/
def parents : List String → List (List String)
  | [] => []
  | [_] => []
  | _ :: r => r.reverse :: parents r

/-- A path, and the paths that it lies in. The root needs no making, and neither does the place where
    paths start. -/
def ancestors (path : String) : List String :=
  let root := if isAbsolute path then "/" else ""
  match (names path).reverse with
  | [] => []
  | r => path :: (parents r).map fun names => root ++ "/".intercalate names

variable {m : Type → Type} [Monad m]

/-- A directory that is there already is as good as made. -/
def settle (host : Host m) (path : String) : Except SystemError Unit → m (Except SystemError Unit)
  | .error .alreadyExists => do
    if ← host.isDirectory path then return .ok () else return .error .alreadyExists
  | made => return made

/-- Makes the first of some paths, of which each lies in the next. -/
def makeFirst (host : Host m) : List String → m (Except SystemError Unit)
  | [] => return .ok ()
  | path :: around => do
    match ← host.makeDirectory path with
    | .error .notFound =>
      match ← makeFirst host around with
      | .error e => return .error e
      | .ok () => settle host path (← host.makeDirectory path)
    | made => settle host path made

def make (host : Host m) (path : String) : m (Except SystemError Unit) :=
  makeFirst host (ancestors path)

end DirectorySearch.Directory
