/-!
Regular expressions: what one is made of, and which may be used.

A pattern is matched one character at a time, or one octet at a time where its flags turn Unicode off.
It is used without tables of characters, so that in the first case there are no shorthand classes, no
edges of words and no ignoring of case. In the second case no part of a pattern may match octets that
do not spell a character.
-/

namespace DirectorySearch

namespace Pattern

/-- What flags switch on or off. -/
structure Flags where
  foldCase : Option Bool := none
  unicode : Option Bool := none
  /-- Whether blanks and comments are passed over. -/
  spaced : Option Bool := none

/-- What matters where a part of a pattern stands. -/
structure Mode where
  foldCase : Bool := false
  unicode : Bool := true

def Flags.apply (f : Flags) (m : Mode) : Mode where
  foldCase := f.foldCase.getD m.foldCase
  unicode := f.unicode.getD m.unicode

/-- A character that stands for itself. -/
structure Literal where
  char : Char
  /-- Whether it is given by its octet, in two hexadecimal digits. -/
  asOctet : Bool := false

def Literal.isAscii (l : Literal) : Bool :=
  l.char.toNat < 0x80

def Literal.isUsable (m : Mode) (l : Literal) : Bool :=
  if m.unicode then !m.foldCase else l.isAscii || !l.asOctet

/-- What stands between brackets. -/
inductive CharSet where
  | empty
  | literal (l : Literal)
  | range (first last : Literal)
  | named (negated : Bool)
  | shorthand (negated : Bool)
  | bracketed (negated : Bool) (inner : CharSet)
  | union (items : List CharSet)
  /-- The intersection or a difference of two sets. -/
  | combination (left right : CharSet)

namespace CharSet

def ofList : List CharSet → CharSet
  | [] => .empty
  | [s] => s
  | items => .union items

/-- How deeply parts are nested. -/
def depth : CharSet → Nat
  | .bracketed _ inner => inner.depth + 1
  | .union items => depths items + 1
  | .combination left right => max left.depth right.depth + 1
  | _ => 0
where
  depths : List CharSet → Nat
    | [] => 0
    | s :: r => max s.depth (depths r)

/-- Where octets are matched, sets are of ASCII. -/
def isUsable (m : Mode) : CharSet → Bool
  | .empty => true
  | .literal l => l.isUsable m && (m.unicode || l.isAscii)
  | .range first last => first.isUsable m && last.isUsable m && (m.unicode || first.isAscii && last.isAscii)
  | .named negated => if m.unicode then !m.foldCase else !negated
  | .shorthand negated => !m.unicode && !negated
  | .bracketed negated inner => inner.isUsable m && (m.unicode || !negated)
  | .union items => allUsable items
  | .combination left right => left.isUsable m && right.isUsable m
where
  allUsable : List CharSet → Bool
    | [] => true
    | s :: r => s.isUsable m && allUsable r

end CharSet

end Pattern

inductive Pattern where
  | empty
  | literal (l : Pattern.Literal)
  /-- Any character. -/
  | any
  /-- The start or the end of the text or of a line. -/
  | edge
  | wordEdge
  | shorthand (negated : Bool)
  | set (negated : Bool) (inner : Pattern.CharSet)
  | flags (f : Pattern.Flags)
  | repeated (p : Pattern)
  | group (f : Pattern.Flags) (p : Pattern)
  | sequence (items : List Pattern)
  | choice (items : List Pattern)

namespace Pattern

/-- How deeply parts are nested. -/
def depth : Pattern → Nat
  | .set _ inner => inner.depth + 1
  | .repeated p => p.depth + 1
  | .group _ p => p.depth + 1
  | .sequence items => depths items + 1
  | .choice items => depths items + 1
  | _ => 0
where
  depths : List Pattern → Nat
    | [] => 0
    | p :: r => max p.depth (depths r)

/-- The mode behind a pattern, if it may be used. Flags last until the end of the group they stand in,
    beyond the alternative. -/
def mode? (m : Mode) : Pattern → Option Mode
  | .empty => some m
  | .literal l => if l.isUsable m then some m else none
  | .any => if m.unicode then some m else none
  | .edge => some m
  | .wordEdge => if m.unicode then none else some m
  | .shorthand negated => if m.unicode || negated then none else some m
  | .set negated inner =>
    if inner.isUsable m && (m.unicode || !negated) then some m else none
  | .flags f => some (f.apply m)
  | .repeated p => p.mode? m
  | .group f p => do
    let _ ← p.mode? (f.apply m)
    return m
  | .sequence items => modes? m items
  | .choice items => modes? m items
where
  modes? (m : Mode) : List Pattern → Option Mode
    | [] => some m
    | p :: r => do modes? (← p.mode? m) r

def depthLimit : Nat := 250

def isUsable (p : Pattern) : Bool :=
  p.depth ≤ depthLimit && (p.mode? {}).isSome

end Pattern

end DirectorySearch
