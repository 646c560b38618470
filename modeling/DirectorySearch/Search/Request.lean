import DirectorySearch.Search.Selection
import DirectorySearch.Search.Settings

/-!
The parameters of a directory search, and how a query gives them.

The parts are made in a fixed order, and the first that cannot be made decides: the table, the base,
the attributes, the filter, the order of the entries, and their number.
-/

namespace DirectorySearch

structure SortKey where
  attr : String
  ascending : Bool
deriving Repr, BEq, DecidableEq

def SortKey.toJson (k : SortKey) : Json :=
  .object [("attribute", .string k.attr), ("ascending", .bool k.ascending)]

structure SearchRequest where
  baseName : String
  filter : String
  /-- The attributes to see, in order and with repeats. -/
  attributes : List String
  scope : SearchScope
  /-- The greatest number of entries, or `noLimit`. -/
  countLimit : Int64
  sortKeys : Option (List SortKey)
deriving Repr, BEq, DecidableEq

namespace SearchRequest

/-- The limit of a search that has none. -/
def noLimit : Int64 := -1

def hasNoLimit (d : SearchRequest) : Bool :=
  d.countLimit == noLimit

def table (q : Query) : Except Problem Table :=
  match q.tables with
  | [table] => .ok table
  | [] => .error .noTable
  | tables => .error (.severalTables tables.length)

def base (t : Table) : Except Problem String :=
  match t.nameInSource with
  | some name => if Text.isBlankText name then .error (.noBase t.name) else .ok name
  | none => .error (.noBase t.name)

/-- The attribute that an expression names. -/
def attr (clause : Clause) : Expr → Except Problem String
  | .column column => .ok column.sourceName
  | .literal value => .error (.literalIn clause value)

def sortKey (item : SortItem) : Except Problem SortKey := do
  return ⟨← attr .orderBy item.expr, !item.descending⟩

/-- An empty list of items asks for no order. -/
def sortKeysOf : Option (List SortItem) → Except Problem (Option (List SortKey))
  | none => return none
  | some [] => return none
  | some items => do return some (← items.mapM sortKey)

def limitOf : Option Int64 → Except Problem Int64
  | none => return noLimit
  | some rows => if rows < 0 then .error (.negativeLimit rows) else .ok rows

/-- The filter for a query on a table. A table of a declared object class asks for it, when that is
    chosen; without a condition nothing else is asked. -/
def filterOf (settings : SearchSettings) (t : Table) (selection : Option Condition) :
    Except Problem (List Char) := do
  let filter ← Selection.compile settings.unsearchable selection
  match t.objectClass, settings.restrictToObjectClass with
  | some objectClass, true =>
    let restriction := Selection.item "objectClass" ['='] (Escape.escapeChars objectClass.toList)
    match selection with
    | none => return restriction
    | some _ => return '(' :: '&' :: restriction ++ filter ++ [')']
  | _, _ => return filter

/-- The search that answers a query. -/
def build (settings : SearchSettings) (q : Query) : Except Problem SearchRequest := do
  let table ← table q
  let baseName ← base table
  let attributes ← q.projection.mapM (attr .projection)
  let filter ← filterOf settings table q.selection
  let sortKeys ← sortKeysOf q.orderBy
  let countLimit ← limitOf q.limit
  return {
    baseName
    filter := .ofList filter
    attributes
    scope := settings.scope
    countLimit
    sortKeys
  }

/-- The members of a request in JSON, in order. -/
def members (d : SearchRequest) : List (String × Json) :=
  [("base_name", .string d.baseName), ("filter", .string d.filter),
    ("attributes", .array (d.attributes.map .string)), ("scope", .string d.scope.name),
    ("count_limit", .int d.countLimit.toInt),
    ("sort_keys", match d.sortKeys with
      | some keys => .array (keys.map SortKey.toJson)
      | none => .null)]

end SearchRequest

end DirectorySearch
