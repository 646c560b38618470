import DirectorySearch.Command.Directory

/-!
Files and directories that are held in memory. They stand in for the system where a run is only thought
through.

The tree starts at the root, where the directories are that every system has. A path is followed step
by step, from the root or from the working directory, and every step must be taken in a directory.
-/

namespace DirectorySearch

/-- The names on the way from the root. -/
abbrev Place := List String

inductive FileNode where
  | directory
  /-- A directory in which nothing can be made. -/
  | sealed
  | file (octets : List UInt8)
  /-- Gives what comes in from outside, once. -/
  | input
deriving Repr, BEq, DecidableEq

structure FileTree where
  nodes : List (Place × FileNode)
  working : Place
  /-- What is still to come in from outside. -/
  input : List UInt8
  /-- Where logs were started. -/
  logs : List Place := []

namespace FileTree

/-- The longest name, in octets. -/
def nameLimit : Nat := 255

/-- The longest path, in octets. -/
def pathLimit : Nat := 4095

/-- What is there on every system. -/
def common : List (Place × FileNode) :=
  (["bin", "boot", "dev", "etc", "home", "lib", "media", "mnt", "opt", "root", "run", "sbin", "srv", "tmp",
    "usr", "var"].map fun name => ([name], FileNode.directory)) ++
  [(["proc"], .sealed), (["sys"], .sealed), (["dev", "null"], .file []), (["dev", "stdin"], .input)]

/-- The places around a place, and the place itself, but not the root. -/
def wayTo (place : Place) : List Place :=
  (List.range place.length).map fun n => place.take (n + 1)

/-- A tree with files in its working directory. -/
def ofFiles (files : List (String × List UInt8)) (input : List UInt8) : FileTree :=
  let working := ["tmp", "work"]
  let placed := files.map fun (name, octets) =>
    (working ++ (Directory.steps name).filter Directory.isName, octets)
  let directories := (wayTo working ++ placed.flatMap fun (place, _) => wayTo place.dropLast).eraseDups
  { nodes := common ++ (placed.map fun (place, octets) => (place, FileNode.file octets)) ++
      directories.map fun place => (place, FileNode.directory)
    working, input }

def node? (t : FileTree) (place : Place) : Option FileNode :=
  if place.isEmpty then some .directory else t.nodes.lookup place

/-- Whether a place is a directory, and if not, why nothing can be found in it. -/
def requireDirectory (t : FileTree) (place : Place) : Except SystemError Unit :=
  match t.node? place with
  | some .directory => .ok ()
  | some .sealed => .ok ()
  | some _ => .error .notADirectory
  | none => .error .notFound

/-- Goes to a name in a directory. -/
def enter (place : Place) (name : String) : Except SystemError Place :=
  if name == "" || name == "." then .ok place
  else if name == ".." then .ok place.dropLast
  else if name.utf8ByteSize > nameLimit then .error .nameTooLong
  else .ok (place ++ [name])

/-- Follows steps from a place. What the last leads to need not be there. -/
def follow (t : FileTree) : Place → List String → Except SystemError Place
  | place, [] => .ok place
  | place, name :: rest => do
    t.requireDirectory place
    t.follow (← enter place name) rest

/-- Where a path starts, and its steps. -/
def start (t : FileTree) (path : String) : Except SystemError (Place × List String) :=
  if path.toList.contains '\x00' then .error .invalidName
  else if path.isEmpty then .error .notFound
  else if path.utf8ByteSize > pathLimit then .error .nameTooLong
  else .ok (if Directory.isAbsolute path then [] else t.working, Directory.steps path)

def find (t : FileTree) (path : String) : Except SystemError FileNode := do
  let (place, steps) ← t.start path
  match t.node? (← t.follow place steps) with
  | some node => .ok node
  | none => .error .notFound

def isDirectory (t : FileTree) (path : String) : Bool :=
  match t.find path with
  | .ok .directory => true
  | .ok .sealed => true
  | _ => false

def isFile (t : FileTree) (path : String) : Bool :=
  match t.find path with
  | .ok (.file _) => true
  | _ => false

/-- Reads a file. Input that has been read is gone. -/
def read (t : FileTree) (path : String) : Except SystemError (List UInt8) × FileTree :=
  match t.find path with
  | .error e => (.error e, t)
  | .ok .directory => (.error .isADirectory, t)
  | .ok .sealed => (.error .isADirectory, t)
  | .ok (.file octets) => (.ok octets, t)
  | .ok .input => (.ok t.input, { t with input := [] })

/-- The steps of a path without the empty ones at its end, in reverse. -/
def lastFirst (steps : List String) : List String :=
  steps.reverse.dropWhile (· == "")

/-- Makes a directory, where nothing is yet. -/
def makeDirectory (t : FileTree) (path : String) : Except SystemError FileTree := do
  let (place, steps) ← t.start path
  match lastFirst steps with
  | [] => .error .alreadyExists
  | name :: before =>
    let around ← t.follow place before.reverse
    t.requireDirectory around
    if name == "." || name == ".." then .error .alreadyExists
    else
      let made ← enter around name
      if (t.node? made).isSome then .error .alreadyExists
      else if t.node? around == some .sealed then .error .notFound
      else .ok { t with nodes := t.nodes ++ [(made, .directory)] }

/-- A name that is as long as those of log files. -/
def logName : String := "ldapsql.log.0000-00-00"

/-- Starts a log in a directory that is there. -/
def startLog (t : FileTree) (directory : String) : Except SystemError FileTree := do
  let (place, steps) ← t.start (Directory.join directory logName)
  let around ← t.follow place steps.dropLast
  t.requireDirectory around
  if t.node? around == some .sealed then .error .notFound
  else return { t with logs := t.logs ++ [around] }

/-- The places where logs were started, as paths from the working directory. Others are left out. -/
def workingLogs (t : FileTree) : List String :=
  t.logs.filterMap fun place =>
    if t.working.isPrefixOf place then some ("/".intercalate (place.drop t.working.length)) else none

/-- Lets a step change the tree, if it succeeds. -/
def attempt (step : FileTree → Except SystemError FileTree) :
    StateM FileTree (Except SystemError Unit) := do
  match step (← get) with
  | .error e => return .error e
  | .ok t =>
    set t
    return .ok ()

/-- The host whose files are those of the tree. -/
def host (environment : List (String × String)) : Host (StateM FileTree) where
  lookup name := return environment.lookup name
  isFile path := return (← get).isFile path
  isDirectory path := return (← get).isDirectory path
  readFile path := modifyGet (·.read path)
  readInput := modifyGet fun t => (.ok t.input, { t with input := [] })
  makeDirectory path := attempt (·.makeDirectory path)
  startLog directory := attempt (·.startLog directory)

end FileTree

end DirectorySearch
