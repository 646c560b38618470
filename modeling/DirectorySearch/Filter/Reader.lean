import DirectorySearch.Filter.Token

/-!
Reading a filter.

A component is a pair of parentheses around a group, a negation or an item. Where several readings
are possible they are tried in a fixed order, and the first that succeeds is final. Every try that
fails leaves its offset behind; the furthest of these is where a refused text is reported, so a
failed try counts even when the reading goes on without it.

`Attempt` carries that offset along. Values are kept as written until the whole text has been
accepted, and only then are their escapes decoded.
-/

namespace DirectorySearch

/-- Why a text is no filter. -/
inductive FilterError where
  /-- The text does not have the form of a filter; the position counts from one. -/
  | mismatch (line column : Nat)
  /-- The octets of a value are not UTF-8. The value is given as written. -/
  | invalidEscape (written : String)
deriving Repr, BEq, DecidableEq

def FilterError.message : FilterError → String
  | .mismatch line column => s!"Pest error: no filter at line {line}, column {column}"
  | .invalidEscape written => s!"Invalid escape sequence in value: {written}"

/-- A filter whose values are still as written. -/
abbrev RawFilter := FilterTree (List Char)

namespace Reader

/-- What was read, the offset of the text after it, and that text. -/
structure Found (α : Type) where
  value : α
  pos : Nat
  rest : List Char

/-- A try: the furthest offset at which a part of it failed, and what it found. -/
structure Attempt (α : Type) where
  reach : Nat
  found : Option (Found α)

def Attempt.failed {α : Type} (pos : Nat) : Attempt α :=
  ⟨pos, none⟩

/-- The first try if it succeeded, else the second. -/
def Attempt.orElse {α : Type} (first : Attempt α) (second : Unit → Attempt α) : Attempt α :=
  match first.found with
  | some _ => first
  | none =>
    let next := second ()
    ⟨max first.reach next.reach, next.found⟩

/-- The offset after an attribute description, and the text there. -/
def attr (pos : Nat) (s : List Char) : Option (Found String) :=
  match Token.attribute? s with
  | some (word, rest) => some ⟨.ofList word, pos + word.length, rest⟩
  | none => none

/-- A presence item: the star must be all that follows the equals sign. -/
def present (pos : Nat) (s : List Char) : Attempt RawFilter :=
  match attr pos s with
  | some ⟨attr, p, '=' :: '*' :: ')' :: rest⟩ => ⟨0, some ⟨.present attr, p + 2, ')' :: rest⟩⟩
  | _ => .failed pos

/-- What follows the first star of a substring item. -/
structure Pieces where
  reach : Nat
  any : List (List Char)
  final : Option (List Char)
  pos : Nat
  rest : List Char

/-- Values with a star after each, and then at most one value without. -/
def pieces : Nat → Nat → List Char → Pieces
  | 0, pos, s => ⟨pos, [], none, pos, s⟩
  | fuel + 1, pos, s =>
    match Token.value s with
    | ([], _) => ⟨pos, [], none, pos, s⟩
    | (word, '*' :: rest) =>
      let next := pieces fuel (pos + word.length + 1) rest
      { next with any := word :: next.any }
    | (word, rest) => ⟨pos + word.length, [], some word, pos + word.length, rest⟩

/-- A substring item: at least one star, and never two without a value between them. -/
def substrings (pos : Nat) (s : List Char) : Attempt RawFilter :=
  match attr pos s with
  | some ⟨attr, p, '=' :: rest⟩ =>
    match Token.value rest with
    | ([], '*' :: rest) =>
      let next := pieces rest.length (p + 2) rest
      ⟨max (p + 1) next.reach, some ⟨.substrings attr none next.any next.final, next.pos, next.rest⟩⟩
    | ([], _) => .failed (p + 1)
    | (word, '*' :: rest) =>
      let next := pieces rest.length (p + word.length + 2) rest
      ⟨next.reach, some ⟨.substrings attr (some word) next.any next.final, next.pos, next.rest⟩⟩
    | (word, _) => .failed (p + word.length + 1)
  | _ => .failed pos

/-- A comparison item, whose value may be empty. -/
def comparison (pos : Nat) (s : List Char) : Attempt RawFilter :=
  match attr pos s with
  | some ⟨attr, p, rest⟩ =>
    match Token.relation? rest with
    | some (relation, rest) =>
      let q := p + relation.symbol.length
      let (word, rest) := Token.value rest
      ⟨if word.isEmpty then q else 0, some ⟨.compare relation attr word, q + word.length, rest⟩⟩
    | none => .failed p
  | none => .failed pos

def item (pos : Nat) (s : List Char) : Attempt RawFilter :=
  (present pos s).orElse fun _ => (substrings pos s).orElse fun _ => comparison pos s

/-- Components in a row, as many as there are, and where the next one was missed. -/
structure Row where
  reach : Nat
  parts : List RawFilter
  pos : Nat
  rest : List Char

/-- A group of at least one component. -/
def Row.group (row : Row) (make : List RawFilter → RawFilter) : Attempt RawFilter :=
  match row.parts with
  | [] => .failed row.reach
  | parts => ⟨row.reach, some ⟨make parts, row.pos, row.rest⟩⟩

/-- Closes a component that was opened at `pos`. -/
def Attempt.close (pos : Nat) (inner : Attempt RawFilter) : Attempt RawFilter :=
  match inner.found with
  | some ⟨tree, p, ')' :: rest⟩ => ⟨inner.reach, some ⟨tree, p + 1, rest⟩⟩
  | _ => .failed (max pos inner.reach)

/-- A try after others that failed at `pos`. -/
def Attempt.after {α : Type} (pos : Nat) (a : Attempt α) : Attempt α :=
  ⟨max pos a.reach, a.found⟩

mutual

/-- One component. A text is no longer than its components are deep, so its length is fuel enough. -/
def component : Nat → Nat → List Char → Attempt RawFilter
  | fuel + 1, pos, '(' :: '&' :: s =>
    let group := (components fuel (pos + 2) s).group .and
    .close pos (if group.found.isSome then group else .after (pos + 1) group)
  | fuel + 1, pos, '(' :: '|' :: s =>
    .close pos (.after (pos + 1) ((components fuel (pos + 2) s).group .or))
  | fuel + 1, pos, '(' :: '!' :: s =>
    let inner := component fuel (pos + 2) s
    .close pos (.after (pos + 1) ⟨inner.reach, inner.found.map fun f => ⟨.not f.value, f.pos, f.rest⟩⟩)
  | _ + 1, pos, '(' :: s => .close pos (.after (pos + 1) (item (pos + 1) s))
  | _, pos, _ => .failed pos

def components : Nat → Nat → List Char → Row
  | 0, pos, s => ⟨pos, [], pos, s⟩
  | fuel + 1, pos, s =>
    let first := component fuel pos s
    match first.found with
    | none => ⟨first.reach, [], pos, s⟩
    | some ⟨tree, p, rest⟩ =>
      let next := components fuel p rest
      ⟨max first.reach next.reach, tree :: next.parts, next.pos, next.rest⟩

end

/-- The whole text as one component, or the offset at which to report it. -/
def filter (s : List Char) : Except Nat RawFilter :=
  let top := component s.length 0 s
  match top.found with
  | some ⟨tree, _, []⟩ => .ok tree
  | some ⟨_, p, _⟩ => .error (max top.reach p)
  | none => .error top.reach

/-- The line and the column of an offset: a line ends with each line feed. -/
def position (s : List Char) (offset : Nat) : Nat × Nat :=
  (s.take offset).foldl (fun (line, column) c => if c == '\n' then (line + 1, 1) else (line, column + 1))
    (1, 1)

def decode (word : List Char) : Except FilterError String :=
  match Escape.unescapeChars? word with
  | some text => .ok (.ofList text)
  | none => .error (.invalidEscape (.ofList word))

end Reader

/-- Reads a filter. -/
def Filter.parse (text : String) : Except FilterError Filter :=
  match Reader.filter text.toList with
  | .ok tree => tree.traverse Reader.decode
  | .error offset =>
    let (line, column) := Reader.position text.toList offset
    .error (.mismatch line column)

end DirectorySearch
