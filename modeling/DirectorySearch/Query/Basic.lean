import DirectorySearch.Decimal.Layout

/-!
Queries: a selection of rows from a table that stands for a part of a directory.

Tables and columns carry the names that the directory knows them by, so a query can be put to the
directory without asking anyone else.
-/

namespace DirectorySearch

/-- How a column may be used in a condition. -/
inductive Searchability where
  | searchable
  | allExceptLike
  | likeOnly
  | unsearchable
deriving Repr, BEq, DecidableEq

namespace Searchability

/-- Whether comparisons, lists of values and null tests may use the column. -/
def allowsComparison : Searchability → Bool
  | .searchable | .allExceptLike => true
  | .likeOnly | .unsearchable => false

/-- Whether patterns may use the column. -/
def allowsLike : Searchability → Bool
  | .searchable | .likeOnly => true
  | .allExceptLike | .unsearchable => false

end Searchability

structure Table where
  name : String
  /-- The entry of the directory below which the rows lie. -/
  nameInSource : Option String := none
  objectClass : Option String := none
deriving Repr, BEq, DecidableEq

structure Column where
  name : String
  /-- The attribute of the directory that holds the values. -/
  nameInSource : Option String := none
  searchability : Searchability := .searchable
deriving Repr, BEq, DecidableEq

/-- The name of the attribute: the column's own name where none is given, or only an empty one. -/
def Column.sourceName (c : Column) : String :=
  match c.nameInSource with
  | some name => if name.isEmpty then c.name else name
  | none => c.name

inductive Literal where
  | null
  | bool (b : Bool)
  | int (n : Int64)
  | float (x : Double)
  | string (s : String)
deriving Repr, BEq, DecidableEq

inductive Comparator where
  | eq
  | ne
  | lt
  | le
  | gt
  | ge
deriving Repr, BEq, DecidableEq

/-- The comparison that holds exactly when the given one does not. -/
def Comparator.complement : Comparator → Comparator
  | .eq => .ne
  | .ne => .eq
  | .lt => .ge
  | .ge => .lt
  | .gt => .le
  | .le => .gt

inductive Condition where
  | comparison (op : Comparator) (column : Column) (value : Literal)
  | not (condition : Condition)
  | and (conditions : List Condition)
  | or (conditions : List Condition)
  | like (column : Column) (pattern : String) (escape : Option Char) (negated : Bool)
  | inList (column : Column) (values : List Literal) (negated : Bool)
  | isNull (column : Column) (negated : Bool)
deriving Repr, BEq

/-- What a query can ask to see or to order by. -/
inductive Expr where
  | column (column : Column)
  | literal (value : Literal)
deriving Repr, BEq, DecidableEq

structure SortItem where
  expr : Expr
  descending : Bool := false
deriving Repr, BEq, DecidableEq

structure Query where
  tables : List Table
  projection : List Expr := []
  selection : Option Condition := none
  orderBy : Option (List SortItem) := none
  limit : Option Int64 := none
deriving Repr, BEq

namespace Condition

def equals (column : Column) (value : Literal) : Condition :=
  .comparison .eq column value

/-- A pattern without an escape character. -/
def matching (column : Column) (pattern : String) : Condition :=
  .like column pattern none false

def matchingEscaped (column : Column) (pattern : String) (escape : Char) : Condition :=
  .like column pattern (some escape) false

def among (column : Column) (values : List Literal) : Condition :=
  .inList column values false

def missing (column : Column) : Condition :=
  .isNull column false

end Condition

namespace Query

/-- A query on one table that asks to see no column yet. -/
def ofTable (table : Table) : Query where
  tables := [table]

/-- Asks to see more columns. -/
def select (q : Query) (columns : List Column) : Query :=
  { q with projection := q.projection ++ columns.map .column }

def filter (q : Query) (condition : Condition) : Query :=
  { q with selection := some condition }

def sort (q : Query) (items : List SortItem) : Query :=
  { q with orderBy := some items }

def take (q : Query) (rows : Int64) : Query :=
  { q with limit := some rows }

end Query

end DirectorySearch
