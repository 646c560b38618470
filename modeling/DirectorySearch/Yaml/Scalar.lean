import DirectorySearch.Text.Hex
import DirectorySearch.Text.Utf8
import DirectorySearch.Yaml.Cursor

/-! Scalars: plain words, and text in single or double quotes. -/

namespace DirectorySearch.Yaml

/-! ### Plain scalars -/

/-- The characters that end a plain scalar inside brackets. -/
def isFlowMark (c : Char) : Bool :=
  c == ',' || c == '[' || c == ']' || c == '\x7b' || c == '\x7d'

/-- A word of a plain scalar, up to a blank or what ends the scalar. Inside brackets a colon must not
    stand right before one of their marks. -/
def plainWord (flow : Bool) : List Char → Option (List Char)
  | [] => some []
  | c :: r =>
    let next := r.head?
    if isBlank c || isBreak c then some []
    else if flow && c == ':' && next.any (fun d => isFlowMark d || d == '?') then none
    else if (c == ':' && endsWord next) || (flow && isFlowMark c) then some []
    else do return c :: (← plainWord flow r)

/-- A plain scalar: its text, the place after it and after the blanks and lines behind it, and whether
    a line ended there. -/
structure Plain where
  text : List Char
  cursor : Cursor
  newLine : Bool

/-- Reads words as long as the lines are indented enough. `gap` lies before the word that is next. -/
def plain (flow : Bool) (limit : Nat) : Nat → Gap → Cursor → Option Plain
  | 0, _, _ => none
  | fuel + 1, gap, c =>
    let newLine := !gap.breaks.isEmpty
    if c.atAnySeparator || c.peek 0 == some '#' then some ⟨[], c, newLine⟩
    else do
      let word ← plainWord flow c.rest
      if word.isEmpty then return ⟨[], c, newLine⟩
      let c := c.skip word.length
      let (next, c) := Gap.read limit c.rest.length c
      if next.tabbed then none
      if (next.blanks.isEmpty && next.breaks.isEmpty) || (!flow && c.column < limit) then
        return ⟨gap.fold ++ word, c, !next.breaks.isEmpty⟩
      let more ← plain flow limit fuel next c
      return ⟨gap.fold ++ word ++ more.text, more.cursor, more.newLine⟩

/-! ### Quoted scalars -/

/-- The value of hexadecimal digits. -/
def hexValue? (digits : List Char) : Option Nat :=
  digits.foldlM (fun n c => do return n * 16 + (← Hex.value? c)) 0

/-- The character of an escape in double quotes, and how many characters spell it. -/
def escape? : List Char → Option (Char × Nat)
  | '0' :: _ => some ('\x00', 1)
  | 'a' :: _ => some ('\x07', 1)
  | 'b' :: _ => some ('\x08', 1)
  | 't' :: _ => some ('\t', 1)
  | '\t' :: _ => some ('\t', 1)
  | 'n' :: _ => some ('\n', 1)
  | 'v' :: _ => some ('\x0b', 1)
  | 'f' :: _ => some ('\x0c', 1)
  | 'r' :: _ => some ('\r', 1)
  | 'e' :: _ => some ('\x1b', 1)
  | ' ' :: _ => some (' ', 1)
  | '"' :: _ => some ('"', 1)
  | '/' :: _ => some ('/', 1)
  | '\\' :: _ => some ('\\', 1)
  | 'N' :: _ => some ('\u0085', 1)
  | '_' :: _ => some ('\u00a0', 1)
  | 'L' :: _ => some ('\u2028', 1)
  | 'P' :: _ => some ('\u2029', 1)
  | 'x' :: r => code 2 r
  | 'u' :: r => code 4 r
  | 'U' :: r => code 8 r
  | _ => none
where
  code (count : Nat) (r : List Char) : Option (Char × Nat) := do
    let digits := r.take count
    if digits.length < count then none
    let c ← Utf8.scalar? (← hexValue? digits)
    return (c, count + 1)

/-- The inside of quotes and the place after the closing one. -/
def quoted (single : Bool) : Nat → Cursor → Option (List Char × Cursor)
  | 0, _ => none
  | fuel + 1, c =>
    if c.atAnySeparator then none
    else
      match c.rest with
      | [] => none
      | x :: r =>
        if isBlank x || isBreak x then do
          let (gap, c) := Gap.read 0 c.rest.length c
          let (text, c) ← quoted single fuel c
          return (gap.fold ++ text, c)
        else if single then
          match x, r with
          | '\'', '\'' :: _ => do
            let (text, c) ← quoted single fuel (c.skip 2)
            return ('\'' :: text, c)
          | '\'', _ => some ([], c.skip 1)
          | _, _ => do
            let (text, c) ← quoted single fuel (c.skip 1)
            return (x :: text, c)
        else if x == '"' then some ([], c.skip 1)
        else if x == '\\' then
          if (r.head?).any isBreak then do
            let c := (c.skip 1).skipBreak
            let (gap, c) := Gap.read 0 c.rest.length c
            let (text, c) ← quoted single fuel c
            return (gap.breaks ++ text, c)
          else do
            let (e, count) ← escape? r
            let (text, c) ← quoted single fuel (c.skip (count + 1))
            return (e :: text, c)
        else do
          let (text, c) ← quoted single fuel (c.skip 1)
          return (x :: text, c)

end DirectorySearch.Yaml
