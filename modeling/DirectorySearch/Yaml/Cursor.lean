import DirectorySearch.Text.Utf8

/-!
A place in a YAML text, and the characters that matter there.

Lines end with a carriage return, a line feed, both together, or one of three rarer characters; the
common ones are all taken as a line feed.
-/

namespace DirectorySearch.Yaml

def isBreak (c : Char) : Bool :=
  c == '\r' || c == '\n' || c == '\u0085' || c == '\u2028' || c == '\u2029'

def isBlank (c : Char) : Bool :=
  c == ' ' || c == '\t'

/-- A blank, a line break, or the end of the text. -/
def endsWord : Option Char → Bool
  | some c => isBlank c || isBreak c
  | none => true

/-- The characters that a YAML text may hold as they are. -/
def isAllowed (c : Char) : Bool :=
  let n := c.toNat
  n == 0x9 || n == 0xA || n == 0xD || (0x20 ≤ n && n ≤ 0x7E) || n == 0x85 ||
    (0xA0 ≤ n && n ≤ 0xD7FF) || (0xE000 ≤ n && n ≤ 0xFFFD) || 0x10000 ≤ n

structure Cursor where
  rest : List Char
  line : Nat
  column : Nat
  /-- How many octets of UTF-8 come before. -/
  index : Nat

namespace Cursor

def start (s : List Char) : Cursor := ⟨s, 0, 0, 0⟩

def peek (c : Cursor) (n : Nat) : Option Char := c.rest[n]?

/-- Moves on by characters of the same line. -/
def skip (c : Cursor) (n : Nat) : Cursor :=
  ⟨c.rest.drop n, c.line, c.column + n, c.index + Utf8.size (c.rest.take n)⟩

/-- Moves past a line break. -/
def skipBreak (c : Cursor) : Cursor :=
  let n := match c.rest with
    | '\r' :: '\n' :: _ => 2
    | _ => 1
  ⟨c.rest.drop n, c.line + 1, 0, c.index + Utf8.size (c.rest.take n)⟩

/-- Whether a line of three dashes or dots starts here, which separates documents. -/
def atSeparator (c : Cursor) (mark : Char) : Bool :=
  c.column == 0 && c.rest.take 3 == [mark, mark, mark] && endsWord (c.peek 3)

def atAnySeparator (c : Cursor) : Bool :=
  c.atSeparator '-' || c.atSeparator '.'

end Cursor

/-- Blanks and line breaks between two words of a scalar: the blanks before the first break, and the
    breaks. -/
structure Gap where
  blanks : List Char
  breaks : List Char
  /-- Whether a tab stands among the blanks of a later line, left of a given column. -/
  tabbed : Bool

namespace Gap

/-- Reads a gap. Blanks count up to the first break only; `limit` is the column that later lines have
    to reach without a tab. -/
def read (limit : Nat) : Nat → Cursor → Gap × Cursor
  | 0, c => (⟨[], [], false⟩, c)
  | fuel + 1, c =>
    match c.rest with
    | [] => (⟨[], [], false⟩, c)
    | x :: _ =>
      if isBlank x then
        let (g, c) := read limit fuel (c.skip 1)
        (⟨x :: g.blanks, g.breaks, g.tabbed⟩, c)
      else if isBreak x then
        let (breaks, tabbed, c) := later fuel c
        (⟨[], breaks, tabbed⟩, c)
      else (⟨[], [], false⟩, c)
where
  later : Nat → Cursor → List Char × Bool × Cursor
    | 0, c => ([], false, c)
    | fuel + 1, c =>
      match c.rest with
      | [] => ([], false, c)
      | x :: _ =>
        if isBlank x then
          let bad := x == '\t' && c.column < limit
          let (breaks, tabbed, c) := later fuel (c.skip 1)
          (breaks, bad || tabbed, c)
        else if isBreak x then
          let mark := if x == '\u2028' || x == '\u2029' then x else '\n'
          let (breaks, tabbed, c) := later fuel c.skipBreak
          (mark :: breaks, tabbed, c)
        else ([], false, c)

/-- What a gap leaves in the scalar: one line break is a space, and of several the first is lost. -/
def fold (g : Gap) : List Char :=
  match g.breaks with
  | [] => g.blanks
  | ['\n'] => [' ']
  | '\n' :: breaks => breaks
  | breaks => breaks

end Gap

end DirectorySearch.Yaml
