import DirectorySearch.Yaml.Scalar

/-!
The tokens of a YAML text. Indentation is read here: a deeper column opens a block, a shallower one
closes it. Whether a scalar or bracket is the key of a mapping shows only at the colon behind it, so a
possible key is remembered with the number of tokens before it, and the colon puts the key's tokens in
there.

Anchors, aliases, tags, directives and block scalars are not read.
-/

namespace DirectorySearch.Yaml

inductive Token where
  | documentStart
  | documentEnd
  | blockSequence
  | blockMapping
  | blockEnd
  | openSequence
  | closeSequence
  | openMapping
  | closeMapping
  | item
  | comma
  | key
  | value
  | scalar (isPlain : Bool) (text : String)
deriving Repr, BEq, DecidableEq

/-- A token that may turn out to start a key. A key has to end on its line. -/
structure PossibleKey where
  /-- How many tokens come before it. -/
  position : Nat
  line : Nat
  column : Nat
  index : Nat
  /-- Whether nothing else can stand there. -/
  required : Bool
deriving Repr, BEq, DecidableEq

/-- How many octets a key may be long. -/
def longestKey : Nat := 1024

structure Lexer where
  cursor : Cursor
  tokens : Array Token := #[]
  /-- The columns of the open blocks, innermost first. -/
  blocks : List Nat := []
  keyAllowed : Bool := true
  possibleKey : Option PossibleKey := none
  /-- The possible keys outside each open bracket. -/
  outerKeys : List (Option PossibleKey) := []

namespace Lexer

def inFlow (l : Lexer) : Bool := !l.outerKeys.isEmpty

def emit (l : Lexer) (t : Token) : Lexer := { l with tokens := l.tokens.push t }

def insert (l : Lexer) (position : Nat) (t : Token) : Lexer :=
  { l with tokens := l.tokens.insertIdxIfInBounds position t }

def skip (l : Lexer) (n : Nat) : Lexer := { l with cursor := l.cursor.skip n }

/-! ### Blocks -/

/-- Opens a block at a column that is deeper than the innermost one. -/
def openBlock (l : Lexer) (column position : Nat) (t : Token) : Lexer :=
  if l.inFlow || l.blocks.head?.any (column ≤ ·) then l
  else { l.insert position t with blocks := column :: l.blocks }

/-- Closes the blocks that are deeper than a column. -/
def closeBlocks (l : Lexer) (keep : Nat → Bool) : Lexer :=
  if l.inFlow then l
  else
    let closed := l.blocks.takeWhile (!keep ·)
    { l with
      tokens := l.tokens ++ Array.replicate closed.length .blockEnd
      blocks := l.blocks.dropWhile (!keep ·) }

/-! ### Possible keys -/

/-- Gives up the possible key. -/
def dropKey (l : Lexer) : Option Lexer :=
  if l.possibleKey.any (·.required) then none else some { l with possibleKey := none }

/-- Remembers that a key may start here. -/
def startKey (l : Lexer) : Option Lexer :=
  if l.keyAllowed then do
    let required := !l.inFlow && l.blocks.head? == some l.cursor.column
    let l ← l.dropKey
    let c := l.cursor
    return { l with possibleKey := some ⟨l.tokens.size, c.line, c.column, c.index, required⟩ }
  else some l

/-- Gives up a key that lies on an earlier line or too far back. -/
def expire (c : Cursor) : Option PossibleKey → Option (Option PossibleKey)
  | none => some none
  | some k =>
    if k.line < c.line || k.index + longestKey < c.index then
      if k.required then none else some none
    else some (some k)

def expireKeys (l : Lexer) : Option Lexer := do
  let current ← expire l.cursor l.possibleKey
  let outer ← l.outerKeys.mapM (expire l.cursor)
  return { l with possibleKey := current, outerKeys := outer }

/-! ### Tokens -/

/-- A byte order mark may start a line, and takes a column. -/
def skipMark (l : Lexer) : Lexer :=
  if l.cursor.column == 0 && l.cursor.peek 0 == some '\ufeff' then l.skip 1 else l

/-- Skips blanks, comments and line breaks. A tab is no blank where a key may start. -/
def skipBlanks : Nat → Lexer → Lexer
  | 0, l => l
  | fuel + 1, l =>
    match l.cursor.rest with
    | [] => l
    | x :: r =>
      if x == ' ' || (x == '\t' && (l.inFlow || !l.keyAllowed)) then skipBlanks fuel (l.skip 1)
      else if x == '#' then
        let comment := r.takeWhile (!isBreak ·)
        lineEnd fuel (l.skip (comment.length + 1))
      else lineEnd fuel l
where
  lineEnd (fuel : Nat) (l : Lexer) : Lexer :=
    if l.cursor.rest.head?.any isBreak then
      let l := { l with cursor := l.cursor.skipBreak, keyAllowed := l.keyAllowed || !l.inFlow }
      skipBlanks fuel l.skipMark
    else l

def documentMark (l : Lexer) (t : Token) : Option Lexer := do
  let l ← (l.closeBlocks fun _ => false).dropKey
  return { (l.emit t).skip 3 with keyAllowed := false }

def openBracket (l : Lexer) (t : Token) : Option Lexer := do
  let l ← l.startKey
  return { (l.emit t).skip 1 with
    keyAllowed := true, possibleKey := none, outerKeys := l.possibleKey :: l.outerKeys }

def closeBracket (l : Lexer) (t : Token) : Option Lexer := do
  let l ← l.dropKey
  return { (l.emit t).skip 1 with
    keyAllowed := false, possibleKey := l.outerKeys.head?.join, outerKeys := l.outerKeys.tail }

def comma (l : Lexer) : Option Lexer := do
  let l ← l.dropKey
  return { (l.emit .comma).skip 1 with keyAllowed := true }

/-- A mark that may open a block, which is only possible where a key may start. -/
def blockMark (l : Lexer) (block mark : Token) (keyNext : Bool) : Option Lexer :=
  if !l.inFlow && !l.keyAllowed then none
  else do
    let l ← (l.openBlock l.cursor.column l.tokens.size block).dropKey
    return { (l.emit mark).skip 1 with keyAllowed := keyNext }

/-- A colon, which makes a key of what was a possible one. -/
def colon (l : Lexer) : Option Lexer :=
  match l.possibleKey with
  | some k =>
    let l := (l.insert k.position .key).openBlock k.column k.position .blockMapping
    some { (l.emit .value).skip 1 with keyAllowed := false, possibleKey := none }
  | none => l.blockMark .blockMapping .value !l.inFlow

def quotedScalar (l : Lexer) (single : Bool) : Option Lexer := do
  let l ← l.startKey
  let c := l.cursor.skip 1
  let (text, c) ← quoted single (c.rest.length + 1) c
  return { l.emit (.scalar false (.ofList text)) with cursor := c, keyAllowed := false }

/-- A plain scalar goes on over lines that are deeper than the innermost block. -/
def plainScalar (l : Lexer) : Option Lexer := do
  let l ← l.startKey
  let limit := match l.blocks with
    | [] => 0
    | column :: _ => column + 1
  let p ← plain l.inFlow limit (l.cursor.rest.length + 1) ⟨[], [], false⟩ l.cursor
  return { l.emit (.scalar true (.ofList p.text)) with cursor := p.cursor, keyAllowed := p.newLine }

/-- Whether a plain scalar may start with this character. -/
def startsPlain (l : Lexer) (x : Char) (next : Option Char) : Bool :=
  if x == '-' then !next.any isBlank
  else if x == '?' || x == ':' then !l.inFlow && !endsWord next
  else !endsWord (some x) && !isFlowMark x && !"#&*!|>'\"%@`".toList.contains x

/-- Reads the next token, or says that the text has ended. -/
def step (l : Lexer) : Option (Lexer ⊕ List Token) := do
  let l ← (skipBlanks (l.cursor.rest.length + 1) l.skipMark).expireKeys
  let c := l.cursor
  let l := l.closeBlocks (· ≤ c.column)
  match c.rest with
  | [] => return .inr (← (l.closeBlocks fun _ => false).dropKey).tokens.toList
  | x :: _ =>
    let next := c.peek 1
    let read ←
      if c.column == 0 && x == '%' then none
      else if c.atSeparator '-' then l.documentMark .documentStart
      else if c.atSeparator '.' then l.documentMark .documentEnd
      else if x == '[' then l.openBracket .openSequence
      else if x == ']' then l.closeBracket .closeSequence
      else if x == '\x7b' then l.openBracket .openMapping
      else if x == '\x7d' then l.closeBracket .closeMapping
      else if x == ',' then l.comma
      else if x == '-' && endsWord next then l.blockMark .blockSequence .item true
      else if x == '?' && (l.inFlow || endsWord next) then l.blockMark .blockMapping .key !l.inFlow
      else if x == ':' && (l.inFlow || endsWord next) then l.colon
      else if x == '\'' then l.quotedScalar true
      else if x == '"' then l.quotedScalar false
      else if l.startsPlain x next then l.plainScalar
      else none
    return .inl read

def run : Nat → Lexer → Option (List Token)
  | 0, _ => none
  | fuel + 1, l =>
    match l.step with
    | none => none
    | some (.inr tokens) => some tokens
    | some (.inl l) => run fuel l

end Lexer

def Token.ofText? (text : String) : Option (List Token) :=
  let s := text.toList
  if s.all isAllowed then Lexer.run (s.length + 1) { cursor := .start s } else none

end DirectorySearch.Yaml
