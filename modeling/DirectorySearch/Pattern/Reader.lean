import DirectorySearch.Pattern.Basic
import DirectorySearch.Text.Alphabetic
import DirectorySearch.Text.Blank
import DirectorySearch.Text.Hex
import DirectorySearch.Text.Numeric
import DirectorySearch.Text.Utf8

/-!
Reading a pattern.

The usual signs are known: alternatives, groups that may be named or change flags, sets in brackets
that may be nested and combined, repetition, and escapes. There is nothing that looks ahead, behind or
back. Numbers of repetitions and codes in braces are not read, for where patterns are used a brace does
not close within one.
-/

namespace DirectorySearch.Pattern

/-- The text that is left, whether blanks and comments are passed over in it, and the names that groups
    have. -/
structure Cursor where
  rest : List Char
  spaced : Bool := false
  names : List (List Char) := []

namespace Cursor

/-- Drops blanks and comments, which go from `#` to the end of the line. -/
def dropSpace (inComment : Bool) : List Char → List Char
  | [] => []
  | c :: r =>
    if inComment then dropSpace (c != '\n') r
    else if Text.isBlank c then dropSpace false r
    else if c == '#' then dropSpace true r
    else c :: r

/-- Passes over blanks, where that is asked for. -/
def skipSpace (c : Cursor) : Cursor :=
  if c.spaced then { c with rest := dropSpace false c.rest } else c

/-- Goes on at a later text. -/
def move (c : Cursor) (rest : List Char) : Cursor :=
  { c with rest }

/-- Goes on at the first text that is not blank. -/
def moveOver (c : Cursor) (rest : List Char) : Cursor :=
  (c.move rest).skipSpace

/-- The character after the next one. Blanks are passed over, and the mark of a comment too, but not what
    the comment says. -/
def second? (c : Cursor) : Option Char :=
  let r := c.rest.drop 1
  if c.spaced then
    match r.dropWhile Text.isBlank with
    | '#' :: r => (r.dropWhile Text.isBlank).head?
    | r => r.head?
  else r.head?

end Cursor

/-- What an escape stands for. -/
inductive Atom where
  | literal (l : Literal)
  | shorthand (negated : Bool)
  | edge
  | wordEdge

def Atom.pattern : Atom → Pattern
  | .literal l => .literal l
  | .shorthand negated => .shorthand negated
  | .edge => .edge
  | .wordEdge => .wordEdge

/-- Only literals and shorthands may stand in a set. -/
def Atom.set? : Atom → Option CharSet
  | .literal l => some (.literal l)
  | .shorthand negated => some (.shorthand negated)
  | _ => none

def Atom.literal? : Atom → Option Literal
  | .literal l => some l
  | _ => none

/-- Reads hexadecimal digits, and gives the number that they add to. -/
def hexDigits : Nat → Nat → Cursor → Option (Nat × Cursor)
  | 0, code, c => some (code, c)
  | n + 1, code, c =>
    match c.rest with
    | [] => none
    | x :: r => do hexDigits n (code * 16 + (← Hex.value? x)) (c.moveOver r)

def hexLiteral (digits : Nat) (c : Cursor) : Option (Atom × Cursor) := do
  let (code, c) ← hexDigits digits 0 c.skipSpace
  return (.literal ⟨← Utf8.scalar? code, digits == 2⟩, c)

/-- Signs of ASCII may be escaped, except for the two that mark the edges of words. -/
def isEscapable (c : Char) : Bool :=
  c.toNat < 0x80 && !c.isAlphanum && c != '<' && c != '>'

/-- Reads an escape, behind its backslash. -/
def escape : Cursor → Option (Atom × Cursor)
  | ⟨[], _, _⟩ => none
  | ⟨x :: r, spaced, names⟩ =>
    let c : Cursor := ⟨r, spaced, names⟩
    if x == 'x' then hexLiteral 2 c
    else if x == 'u' then hexLiteral 4 c
    else if x == 'U' then hexLiteral 8 c
    else if ['d', 's', 'w'].contains x then some (.shorthand false, c)
    else if ['D', 'S', 'W'].contains x then some (.shorthand true, c)
    else if ['b', 'B', '<', '>'].contains x then some (.wordEdge, c)
    else if ['A', 'z'].contains x then some (.edge, c)
    else if x == 'a' then some (.literal ⟨'\x07', false⟩, c)
    else if x == 'f' then some (.literal ⟨'\x0c', false⟩, c)
    else if x == 't' then some (.literal ⟨'\t', false⟩, c)
    else if x == 'n' then some (.literal ⟨'\n', false⟩, c)
    else if x == 'r' then some (.literal ⟨'\r', false⟩, c)
    else if x == 'v' then some (.literal ⟨'\x0b', false⟩, c)
    else if isEscapable x then some (.literal ⟨x, false⟩, c)
    else none

/-! ### Sets -/

def setNames : List String :=
  ["alnum", "alpha", "ascii", "blank", "cntrl", "digit", "graph", "lower", "print", "punct", "space",
    "upper", "word", "xdigit"]

/-- A set that is named, such as `[:alpha:]`, and the text behind it. -/
def namedSet? : List Char → Option (CharSet × List Char)
  | '[' :: ':' :: r =>
    let (negated, r) := match r with
      | '^' :: r => (true, r)
      | r => (false, r)
    match r.dropWhile (· != ':') with
    | ':' :: ']' :: rest =>
      if setNames.contains (.ofList (r.takeWhile (· != ':'))) then some (.named negated, rest) else none
    | _ => none
  | _ => none

/-- Reads a character or an escape in a set. -/
def setAtom (c : Cursor) : Option (Atom × Cursor) :=
  match c.rest with
  | [] => none
  | '\\' :: r => escape (c.move r)
  | x :: r => some (.literal ⟨x, false⟩, c.move r)

/-- Reads an item of a set, or a range. A hyphen before the closing bracket or another hyphen makes no
    range. -/
def setItem (c : Cursor) : Option (CharSet × Cursor) := do
  let (first, c) ← setAtom c
  let c := c.skipSpace
  match c.rest with
  | '-' :: r =>
    if c.second? == some ']' || c.second? == some '-' then return (← first.set?, c)
    else
      let (last, c) ← setAtom (c.moveOver r)
      let first ← first.literal?
      let last ← last.literal?
      if first.char ≤ last.char then return (.range first last, c) else none
  | [] => none
  | _ => return (← first.set?, c)

/-- Reads hyphens at the start of a set. -/
def hyphens (c : Cursor) : Nat → List CharSet × Cursor
  | 0 => ([], c)
  | fuel + 1 =>
    match c.rest with
    | '-' :: r =>
      let (items, c) := hyphens (c.moveOver r) fuel
      (.literal ⟨'-', false⟩ :: items, c)
    | _ => ([], c)

/-- Reads the start of a set, behind its bracket: whether it is negated, and the hyphens or the closing
    bracket that stand first and for themselves. -/
def setStart (c : Cursor) : Bool × List CharSet × Cursor :=
  let c := c.skipSpace
  let (negated, c) := match c.rest with
    | '^' :: r => (true, c.moveOver r)
    | _ => (false, c)
  match c.rest with
  | ']' :: r => (negated, [.literal ⟨']', false⟩], c.moveOver r)
  | _ =>
    let (items, c) := hyphens c c.rest.length
    (negated, items, c)

/-- A set that is being read: what is to be combined with the rest, and the latest items in reverse. -/
structure SetParts where
  left : Option CharSet := none
  items : List CharSet := []

namespace SetParts

def push (p : SetParts) (s : CharSet) : SetParts :=
  { p with items := s :: p.items }

def close (p : SetParts) : CharSet :=
  let right := CharSet.ofList p.items.reverse
  match p.left with
  | some left => .combination left right
  | none => right

/-- Goes on behind an operator. -/
def next (p : SetParts) : SetParts where
  left := some p.close

end SetParts

/-- Reads a set up to its closing bracket and over it. -/
def setBody : Nat → SetParts → Cursor → Option (CharSet × Cursor)
  | 0, _, _ => none
  | fuel + 1, p, c =>
    let c := c.skipSpace
    match c.rest with
    | [] => none
    | ']' :: r => some (p.close, c.move r)
    | '&' :: '&' :: r => setBody fuel p.next (c.move r)
    | '-' :: '-' :: r => setBody fuel p.next (c.move r)
    | '~' :: '~' :: r => setBody fuel p.next (c.move r)
    | '[' :: r =>
      match namedSet? c.rest with
      | some (s, r) => setBody fuel (p.push s) (c.move r)
      | none => do
        let (negated, items, c) := setStart (c.move r)
        let (inner, c) ← setBody fuel { items := items.reverse } c
        setBody fuel (p.push (.bracketed negated inner)) c
    | _ => do
      let (s, c) ← setItem c
      setBody fuel (p.push s) c

/-! ### Groups -/

/-- How a group begins, or flags that stand alone. -/
inductive Opening where
  | group (f : Flags)
  | flags (f : Flags)

/-- Reads flags up to the sign that ends them, which is given too. A flag is given once, and so is the
    hyphen that turns off those behind it. -/
def flagLetters (seen : List Char) (f : Flags) : List Char → Option (Flags × List Char × List Char)
  | [] => none
  | x :: r =>
    if x == ':' || x == ')' then
      if seen.head? == some '-' then none else some (f, seen, x :: r)
    else if seen.contains x then none
    else
      let on := some (!seen.contains '-')
      if x == 'i' then flagLetters (x :: seen) { f with foldCase := on } r
      else if x == 'u' then flagLetters (x :: seen) { f with unicode := on } r
      else if x == 'x' then flagLetters (x :: seen) { f with spaced := on } r
      else if ['-', 'm', 's', 'U', 'R'].contains x then flagLetters (x :: seen) f r
      else none

def isNameStart (c : Char) : Bool :=
  c == '_' || Text.isAlphabetic c

def isNameChar (c : Char) : Bool :=
  c == '_' || c == '.' || c == '[' || c == ']' || Text.isAlphabetic c || Text.isNumeric c

/-- Reads the name of a group up to the sign that ends it. A name is given once. -/
def groupName (c : Cursor) (r : List Char) : Option (Opening × Cursor) :=
  let name := r.takeWhile (· != '>')
  match name, r.dropWhile (· != '>') with
  | first :: others, '>' :: r =>
    if isNameStart first && others.all isNameChar && !c.names.contains name then
      some (.group {}, { c with rest := r, names := name :: c.names })
    else none
  | _, _ => none

/-- Reads the start of a group, behind its parenthesis. -/
def opening (c : Cursor) : Option (Opening × Cursor) :=
  let c := c.skipSpace
  match c.rest with
  | '?' :: '<' :: '=' :: _ => none
  | '?' :: '<' :: '!' :: _ => none
  | '?' :: 'P' :: '<' :: r => groupName c r
  | '?' :: '<' :: r => groupName c r
  | '?' :: r =>
    match flagLetters [] {} r with
    | some (f, _, ':' :: r) => some (.group f, c.move r)
    | some (f, _ :: _, ')' :: r) => some (.flags f, c.move r)
    | _ => none
  | _ => some (.group {}, c)

/-! ### Patterns -/

def ofList : List Pattern → Pattern
  | [] => .empty
  | [p] => p
  | items => .sequence items

def ofChoices : List Pattern → Pattern
  | [p] => p
  | items => .choice items

/-- A pattern that is being read: its alternatives so far, and the items of the latest, in reverse. -/
structure Parts where
  choices : List Pattern := []
  items : List Pattern := []

namespace Parts

def push (p : Parts) (item : Pattern) : Parts :=
  { p with items := item :: p.items }

/-- Goes on with another alternative. -/
def next (p : Parts) : Parts where
  choices := ofList p.items.reverse :: p.choices

def close (p : Parts) : Pattern :=
  ofChoices (ofList p.items.reverse :: p.choices).reverse

/-- Repeats the latest item, which flags are not. -/
def repeatLast? (p : Parts) : Option Parts :=
  match p.items with
  | [] => none
  | .flags _ :: _ => none
  | item :: items => some { p with items := .repeated item :: items }

end Parts

/-- Reads a pattern up to a closing parenthesis or the end of the text. -/
def body : Nat → Parts → Cursor → Option (Pattern × Cursor)
  | 0, _, _ => none
  | fuel + 1, p, c =>
    let c := c.skipSpace
    match c.rest with
    | [] => some (p.close, c)
    | x :: r =>
      if x == ')' then some (p.close, c)
      else if x == '|' then body fuel p.next (c.move r)
      else if x == '(' then do
        let (start, d) ← opening (c.move r)
        match start with
        | .flags f => body fuel (p.push (.flags f)) { d with spaced := f.spaced.getD d.spaced }
        | .group f =>
          let (inner, d) ← body fuel {} { d with spaced := f.spaced.getD d.spaced }
          match d.rest with
          | ')' :: r => body fuel (p.push (.group f inner)) { d with rest := r, spaced := c.spaced }
          | _ => none
      else if x == '[' then do
        let (negated, items, c) := setStart (c.move r)
        let (inner, c) ← setBody fuel { items := items.reverse } c
        body fuel (p.push (.set negated inner)) c
      else if x == '?' || x == '*' || x == '+' then do
        let lazy := match r with
          | '?' :: r => r
          | r => r
        body fuel (← p.repeatLast?) (c.move lazy)
      else if x == '\x7b' then none
      else if x == '\\' then do
        let (atom, c) ← escape (c.move r)
        body fuel (p.push atom.pattern) c
      else if x == '.' then body fuel (p.push .any) (c.move r)
      else if x == '^' || x == '$' then body fuel (p.push .edge) (c.move r)
      else body fuel (p.push (.literal ⟨x, false⟩)) (c.move r)

/-- The pattern that a text spells. -/
def parse? (s : List Char) : Option Pattern :=
  match body (s.length + 1) {} ⟨s, false, []⟩ with
  | some (p, ⟨[], _, _⟩) => some p
  | _ => none

end DirectorySearch.Pattern
