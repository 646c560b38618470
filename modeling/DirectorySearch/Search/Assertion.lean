import DirectorySearch.Filter.Basic
import DirectorySearch.Search.Problem

/-! What filters can say about columns, comparisons and values. -/

namespace DirectorySearch

/-- What becomes of a condition on a column that must not be searched that way. -/
inductive UnsearchablePolicy where
  | reject
  | allow
deriving Repr, BEq, DecidableEq

/-- An item for a comparison, as it is or negated. -/
inductive ComparisonItem where
  | direct (relation : Relation)
  | negated (relation : Relation)
deriving Repr, BEq, DecidableEq

/-- Items know no strict comparison: less and greater are the negations of the other way round. A
    negated item also matches an entry without the attribute. -/
def Comparator.item : Comparator → ComparisonItem
  | .eq => .direct .equal
  | .le => .direct .lessOrEqual
  | .ge => .direct .greaterOrEqual
  | .ne => .negated .equal
  | .gt => .negated .lessOrEqual
  | .lt => .negated .greaterOrEqual

namespace Column

def isAttributeChar (c : Char) : Bool :=
  c.isAlphanum || c == '-' || c == '.' || c == ';'

/-- The attribute of a column, when it has only characters that attributes have. -/
def attr (c : Column) : Except Problem String :=
  let name := c.sourceName
  if !name.isEmpty && name.toList.all isAttributeChar then .ok name
  else .error (.badAttribute c.name name)

def allows (c : Column) : Usage → Bool
  | .comparison => c.searchability.allowsComparison
  | .like => c.searchability.allowsLike

/-- Checks that a column may be used. -/
def checkUsage (policy : UnsearchablePolicy) (c : Column) (usage : Usage) : Except Problem Unit :=
  if c.allows usage then .ok ()
  else
    match policy with
    | .reject => .error (.notSearchable c.name usage)
    | .allow => .ok ()

end Column

/-- A literal as the text that a directory compares with. -/
def Literal.assertion : Literal → Except Problem String
  | .string s => .ok s
  | .int n => .ok (intText n)
  | .float (.finite x) => .ok (assertionFloat (.finite x))
  | .float x => .error (.notFinite x)
  | .bool true => .ok "TRUE"
  | .bool false => .ok "FALSE"
  | .null => .error .nullComparison

end DirectorySearch
