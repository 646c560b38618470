import DirectorySearch.Filter.Escape
import DirectorySearch.Search.Problem

/-!
LIKE patterns as the bodies of substring items.

A percent sign stands for any text and becomes a star. The escape character makes a percent sign, an
underscore or itself stand for itself. An underscore that is not escaped stands for one character,
which a filter cannot say.
-/

namespace DirectorySearch.Like

/-- Accepts the wildcards that a filter has. -/
def acceptWildcard (c : Char) : Except Problem Unit :=
  match c with
  | '%' => .ok ()
  | '_' => .error .singleWildcard
  | c => .error (.notWildcard c)

/-- The body for a pattern; `starred` tells that a star has just been written, so that stars in a row
    become one. -/
def body (escape : Option Char) (starred : Bool) : List Char → Except Problem (List Char)
  | [] => return []
  | c :: r =>
    if some c = escape then
      match r with
      | [] => .error (.danglingEscape c)
      | d :: r =>
        if d = '%' ∨ d = '_' ∨ some d = escape then do
          return Escape.escapeChar d ++ (← body escape false r)
        else .error (.badEscape c d)
    else if c = '%' ∨ c = '_' then do
      acceptWildcard c
      let rest ← body escape true r
      return if starred then rest else '*' :: rest
    else do return Escape.escapeChar c ++ (← body escape false r)

/-- The body of the item that matches what a pattern matches. -/
def itemBody (pattern : String) (escape : Option Char) : Except Problem String := do
  return .ofList (← body escape false pattern.toList)

end DirectorySearch.Like
