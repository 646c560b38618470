import DirectorySearch.Filter.Basic
import DirectorySearch.Filter.Escape

/-!
The two kinds of words that a written filter holds: attribute descriptions and assertion values.
Each reader takes the longest word at the start of a text and gives back the word and the rest.
-/

namespace DirectorySearch.Token

/-- A word and the text after it. -/
abbrev Split := List Char × List Char

/-- The characters of names and options after the first. -/
def isKeyChar (c : Char) : Bool :=
  c.isAlphanum || c == '-'

/-- The longest start in which every character satisfies `p` or is `separator` with one that
    satisfies `p` right after it. -/
def runs (separator : Char) (p : Char → Bool) : List Char → Split
  | a :: b :: r =>
    if a == separator && p b then
      let (word, rest) := runs separator p r
      (a :: b :: word, rest)
    else if p a then
      let (word, rest) := runs separator p (b :: r)
      (a :: word, rest)
    else ([], a :: b :: r)
  | [a] => if p a then ([a], []) else ([], [a])
  | [] => ([], [])

/-- Options, each introduced by a semicolon and not empty. -/
def options (s : List Char) : Split :=
  match s with
  | ';' :: c :: r =>
    if isKeyChar c then
      let (word, rest) := runs ';' isKeyChar r
      (';' :: c :: word, rest)
    else ([], s)
  | _ => ([], s)

/-- An attribute description: a name that starts with a letter, or numbers with dots between them
    and at least one dot, and then options. -/
def attribute? : List Char → Option Split
  | [] => none
  | c :: r =>
    if c.isAlpha then
      let (word, rest) := runs ';' isKeyChar r
      some (c :: word, rest)
    else if c.isDigit then
      let (numbers, rest) := runs '.' Char.isDigit r
      if numbers.contains '.' then
        let (word, rest) := options rest
        some (c :: numbers ++ word, rest)
      else none
    else none

/-- A text that is an attribute description from its start to its end. -/
def isAttribute (s : List Char) : Bool :=
  match attribute? s with
  | some (_, []) => true
  | _ => false

/-- The characters that a value may hold as they are. -/
def isPlain (c : Char) : Bool :=
  c != '(' && c != ')' && c != '*' && c != '\\' && c != '\x00'

/-- An assertion value: plain characters and escapes. The word is empty where no value starts. -/
def value : List Char → Split
  | [] => ([], [])
  | '\\' :: a :: b :: r =>
    if (Escape.octet? a b).isSome then
      let (word, rest) := value r
      ('\\' :: a :: b :: word, rest)
    else ([], '\\' :: a :: b :: r)
  | c :: r =>
    if isPlain c then
      let (word, rest) := value r
      (c :: word, rest)
    else ([], c :: r)

/-- The mark of a comparison. -/
def relation? : List Char → Option (Relation × List Char)
  | '~' :: '=' :: r => some (.approx, r)
  | '>' :: '=' :: r => some (.greaterOrEqual, r)
  | '<' :: '=' :: r => some (.lessOrEqual, r)
  | '=' :: r => some (.equal, r)
  | _ => none

end DirectorySearch.Token
