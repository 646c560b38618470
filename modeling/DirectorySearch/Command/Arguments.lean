/-!
The words of a command line.

Options stand before or after the name of the command, and those of the command only after it. The
settings file may be named once in each place, and the place after the command counts more. Two dashes
end the options of a command.
-/

namespace DirectorySearch

inductive Command where
  /-- Answers a query from a file, or from the standard input. -/
  | translate (input : Option String) (pretty : Bool)
  /-- Reads a filter back. -/
  | check (filter : String)
deriving Repr, BEq, DecidableEq

structure Invocation where
  settingsFile : Option String
  command : Command
deriving Repr, BEq, DecidableEq

/-- Why no command is run. -/
inductive Stop where
  | help
  | version
  | usage
deriving Repr, BEq, DecidableEq

def Stop.exitCode : Stop → UInt32
  | .help | .version => 0
  | .usage => 2

/-- The file to read a query from. One dash stands for the standard input. -/
def Command.inputPath (input : Option String) : Option String :=
  input.filter (· != "-")

namespace Invocation

/-- What one word says. An option's value may be part of the word. -/
inductive Word where
  | plain (text : String)
  | endOfOptions
  | config (value : Option String)
  | pretty
  | help
  | version
  | unknown
deriving Repr, BEq, DecidableEq

namespace Word

def ofLong (name : List Char) : Word :=
  match name.takeWhile (· != '='), name.dropWhile (· != '=') with
  | name, _ :: value => if name == "config".toList then .config (some (.ofList value)) else .unknown
  | name, [] =>
    match String.ofList name with
    | "config" => .config none
    | "pretty" => .pretty
    | "help" => .help
    | "version" => .version
    | _ => .unknown

/-- The first letter decides: it either stops everything or takes the rest of the word. -/
def ofShort (letter : Char) (rest : List Char) : Word :=
  match letter, rest with
  | 'h', _ => .help
  | 'V', _ => .version
  | 'c', [] => .config none
  | 'c', '=' :: value => .config (some (.ofList value))
  | 'c', value => .config (some (.ofList value))
  | _, _ => .unknown

def ofText (text : String) : Word :=
  match text.toList with
  | ['-', '-'] => .endOfOptions
  | '-' :: '-' :: name => ofLong name
  | '-' :: letter :: rest => ofShort letter rest
  | _ => .plain text

end Word

/-- Takes a settings file, which has a name and comes once. -/
def takeConfig (taken : Option String) (path : String) : Except Stop (Option String) :=
  if path.isEmpty || taken.isSome then .error .usage else .ok (some path)

inductive Verb where
  | translate
  | check
deriving Repr, BEq, DecidableEq

/-- What has been read behind the name of a command. -/
structure Given where
  config : Option String := none
  pretty : Bool := false
  operand : Option String := none
deriving Repr, BEq, DecidableEq

namespace Given

/-- A command takes one operand, and a file has a name. -/
def takeOperand (verb : Verb) (g : Given) (text : String) : Except Stop Given :=
  if g.operand.isSome || (verb == .translate && text.isEmpty) then .error .usage
  else .ok { g with operand := some text }

/-- Reads the words behind the name of a command. -/
def read (verb : Verb) (g : Given) : List String → Except Stop Given
  | [] => .ok g
  | word :: rest =>
    match Word.ofText word with
    | .plain text => do read verb (← g.takeOperand verb text) rest
    | .endOfOptions => rest.foldlM (takeOperand verb) g
    | .config (some path) => do read verb { g with config := ← takeConfig g.config path } rest
    | .config none =>
      match rest with
      | [] => .error .usage
      | word :: rest =>
        match Word.ofText word with
        | .plain path => do read verb { g with config := ← takeConfig g.config path } rest
        | _ => .error .usage
    | .pretty =>
      if verb == .translate && !g.pretty then read verb { g with pretty := true } rest else .error .usage
    | .help => .error .help
    | .version | .unknown => .error .usage

def command (verb : Verb) (g : Given) : Except Stop Command :=
  match verb, g.operand with
  | .translate, input => .ok (.translate input g.pretty)
  | .check, some filter => .ok (.check filter)
  | .check, none => .error .usage

end Given

def verb? : String → Option Verb
  | "translate" => some .translate
  | "check" => some .check
  | _ => none

/-- Help may be asked for one command. -/
def helpOn : List String → Stop
  | [] => .help
  | [name] => if (verb? name).isSome || name == "help" then .help else .usage
  | _ => .usage

/-- Reads a whole command line. A settings file that is a word of its own before the command is looked
    at only when the next option comes, or else when the command has been read. -/
def read (taken waiting : Option String) : List String → Except Stop Invocation
  | [] => .error .usage
  | word :: rest => do
    match Word.ofText word with
    | .plain "help" => .error (helpOn rest)
    | .plain name =>
      match verb? name with
      | none => .error .usage
      | some verb =>
        let given ← Given.read verb {} rest
        let command ← given.command verb
        let before ← settle
        return ⟨given.config.or before, command⟩
    | .config (some path) => do
      let taken ← takeConfig (← settle) path
      read taken none rest
    | .config none =>
      let taken ← settle
      match rest with
      | [] => .error .usage
      | word :: rest =>
        match Word.ofText word with
        | .plain path => read taken (some path) rest
        | _ => .error .usage
    | .help => do
      let _ ← settle
      .error .help
    | .version => do
      let _ ← settle
      .error .version
    | .endOfOptions | .pretty | .unknown => .error .usage
where
  settle : Except Stop (Option String) :=
    match waiting with
    | none => .ok taken
    | some path => takeConfig taken path

def parse (words : List String) : Except Stop Invocation :=
  read none none words

end Invocation

end DirectorySearch
