import DirectorySearch.Search.Assertion
import DirectorySearch.Search.Like
import DirectorySearch.Search.Negation

/-!
The filter for a condition, written down piece by piece.

Every leaf is checked before it is written: the use of the column, then its attribute, then the value
or pattern. The first leaf or empty group that cannot be written decides.
-/

namespace DirectorySearch.Selection

/-- The filter that every entry passes. -/
def everything : List Char :=
  "(objectClass=*)".toList

def negation (fragment : List Char) : List Char :=
  '(' :: '!' :: fragment ++ [')']

/-- A fragment or its negation. -/
def negatedIf (negated : Bool) (fragment : List Char) : List Char :=
  if negated then negation fragment else fragment

def item (attr : String) (mark body : List Char) : List Char :=
  '(' :: attr.toList ++ mark ++ body ++ [')']

variable (policy : UnsearchablePolicy)

def comparison (op : Comparator) (column : Column) (value : Literal) : Except Problem (List Char) := do
  column.checkUsage policy .comparison
  let attr ← column.attr
  let body := Escape.escapeChars (← value.assertion).toList
  match op.item with
  | .direct relation => return item attr relation.symbol body
  | .negated relation => return negation (item attr relation.symbol body)

def like (column : Column) (pattern : String) (escape : Option Char) (negated : Bool) :
    Except Problem (List Char) := do
  column.checkUsage policy .like
  let attr ← column.attr
  let body ← Like.body escape false pattern.toList
  return negatedIf negated (item attr ['='] body)

/-- One equality after the other. -/
def equalities (column : Column) : List Literal → Except Problem (List Char)
  | [] => return []
  | value :: values => do
    let first ← comparison policy .eq column value
    return first ++ (← equalities column values)

/-- A list of values is a group of equalities, also when it has one value only. -/
def inList (column : Column) (values : List Literal) (negated : Bool) : Except Problem (List Char) := do
  if values.isEmpty then .error (.emptyList column.name)
  else
    let body ← equalities policy column values
    return negatedIf negated ('(' :: '|' :: body ++ [')'])

def isNull (column : Column) (negated : Bool) : Except Problem (List Char) := do
  column.checkUsage policy .comparison
  let attr ← column.attr
  return negatedIf (!negated) (item attr ['='] ['*'])

mutual

/-- The filter for a condition as it stands. -/
def fragment : Condition → Except Problem (List Char)
  | .comparison op column value => comparison policy op column value
  | .not condition => do return negation (← fragment condition)
  | .and conditions => group '&' conditions
  | .or conditions => group '|' conditions
  | .like column pattern escape negated => like policy column pattern escape negated
  | .inList column values negated => inList policy column values negated
  | .isNull column negated => isNull policy column negated

def group (mark : Char) (conditions : List Condition) : Except Problem (List Char) := do
  match conditions with
  | [] => .error .emptyGroup
  | condition :: conditions =>
    let first ← fragment condition
    let others ← fragments conditions
    return '(' :: mark :: first ++ others ++ [')']

def fragments : List Condition → Except Problem (List Char)
  | [] => return []
  | condition :: conditions => do
    let first ← fragment condition
    return first ++ (← fragments conditions)

end

/-- A group is its parts in a row, between its mark and a parenthesis. -/
theorem group_cons (mark : Char) (condition : Condition) (conditions : List Condition) :
    group policy mark (condition :: conditions) =
      fragments policy (condition :: conditions) >>= fun body => pure ('(' :: mark :: body ++ [')']) := by
  rw [group, fragments, bind_assoc]
  refine congrArg (fragment policy condition >>= ·) (funext fun first => ?_)
  rw [bind_assoc]
  rfl

/-- The filter for the condition of a query, with negations at the leaves. -/
def compile : Option Condition → Except Problem (List Char)
  | none => return everything
  | some condition => fragment policy condition.negationNormal

end DirectorySearch.Selection
