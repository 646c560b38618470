import DirectorySearch.Filter.Basic
import DirectorySearch.Filter.Escape

/-! The written form of a filter. -/

namespace DirectorySearch

namespace Writer

/-- A value that may be left out. -/
def part (value : Option String) : List Char :=
  Escape.escapeChars (value.getD "").toList

/-- The pieces between the stars of a substring item; empty ones are left out, so that two stars
    never meet. -/
def pieces (any : List String) : List Char :=
  (any.filter (· ≠ "")).flatMap fun piece => Escape.escapeChars piece.toList ++ ['*']

def item (attr : String) (mark body : List Char) : List Char :=
  '(' :: attr.toList ++ mark ++ body ++ [')']

mutual

def filter : Filter → List Char
  | .and parts => '(' :: '&' :: filters parts ++ [')']
  | .or parts => '(' :: '|' :: filters parts ++ [')']
  | .not part => '(' :: '!' :: filter part ++ [')']
  | .compare relation attr value => item attr relation.symbol (Escape.escapeChars value.toList)
  | .present attr => item attr ['='] ['*']
  | .substrings attr initial any final =>
    item attr ['='] (part initial ++ '*' :: pieces any ++ part final)

def filters : List Filter → List Char
  | [] => []
  | part :: parts => filter part ++ filters parts

end

end Writer

/-- The canonical text of a filter. -/
def Filter.render (f : Filter) : String :=
  .ofList (Writer.filter f)

end DirectorySearch
