import DirectorySearch.Proofs.Request

/-! How a search is put together. Its parts are made in a fixed order, and each can fail for reasons of its own,
    so a query is answered exactly when none fails, and otherwise the first failure is told. -/

namespace DirectorySearch

/-- The value of an expression that is no column. -/
def Expr.literal? : Expr → Option Literal
  | .column _ => none
  | .literal value => some value

/-- An expression is a column of an attribute. -/
def Expr.Names (expr : Expr) (attr : String) : Prop :=
  ∃ column, expr = .column column ∧ attr = column.sourceName

/-- An item asks for the order of a key. -/
def SortItem.AsksFor (item : SortItem) (key : SortKey) : Prop :=
  item.expr.Names key.attr ∧ key.ascending = !item.descending

/-- A table lies below an entry of the directory. -/
def Table.HasBase (t : Table) (base : String) : Prop :=
  t.nameInSource = some base ∧ ∃ c ∈ base.toList, Text.isBlank c = false

/-- A query that a search can answer. -/
structure Query.Answerable (settings : SearchSettings) (q : Query) : Prop where
  table : ∃ t base, q.tables = [t] ∧ t.HasBase base
  projection : ∀ expr ∈ q.projection, ∃ column, expr = .column column
  selection : ∃ s, Selection.compile settings.unsearchable q.selection = .ok s
  orderBy : ∀ items ∈ q.orderBy, ∀ item ∈ items, ∃ column, item.expr = .column column
  limit : ∀ rows ∈ q.limit, 0 ≤ rows

namespace SearchRequest

/-- A search asks for what a query does. -/
structure Answers (settings : SearchSettings) (q : Query) (d : SearchRequest) : Prop where
  table : ∃ t, q.tables = [t] ∧ t.nameInSource = some d.baseName ∧ filterOf settings t q.selection = .ok d.filter.toList
  attributes : List.Forall₂ Expr.Names q.projection d.attributes
  scope : d.scope = settings.scope
  unsorted : d.sortKeys = none ↔ q.orderBy = none ∨ q.orderBy = some []
  sortKeys : ∀ keys ∈ d.sortKeys, ∃ items ∈ q.orderBy, List.Forall₂ SortItem.AsksFor items keys
  limit : ∀ rows ∈ q.limit, d.countLimit = rows
  countLimit : -1 ≤ d.countLimit
  hasNoLimit : d.hasNoLimit = true ↔ q.limit = none

/-- The parts of a search. -/
inductive Stage where
  | table
  | base
  | projection
  | filter
  | orderBy
  | limit
deriving Repr, DecidableEq

namespace Stage

/-- The order in which the parts are made. -/
def order : List Stage :=
  [.table, .base, .projection, .filter, .orderBy, .limit]

/-- Why a part cannot be made, if those before it can. -/
def fault? (settings : SearchSettings) (q : Query) : Stage → Option Problem
  | .table =>
    match q.tables.length with
    | 0 => some .noTable
    | 1 => none
    | count => some (.severalTables count)
  | .base =>
    q.tables.head?.bind fun t =>
      if t.nameInSource.all Text.isBlankText then some (.noBase t.name) else none
  | .projection => (q.projection.findSome? Expr.literal?).map (.literalIn .projection)
  | .filter => error? (Selection.compile settings.unsearchable q.selection)
  | .orderBy => ((q.orderBy.getD []).findSome? fun item => item.expr.literal?).map (.literalIn .orderBy)
  | .limit => q.limit.bind fun rows => if rows < 0 then some (.negativeLimit rows) else none

end Stage

/-! ### What each part fails for -/

section Fault
variable {settings : SearchSettings} {q : Query}

theorem error?_table : error? (table q) = Stage.table.fault? settings q := by
  unfold table Stage.fault?
  rcases q.tables with _ | ⟨t, _ | ⟨t', ts⟩⟩ <;> rfl

theorem error?_base {t : Table} (ht : q.tables = [t]) : error? (base t) = Stage.base.fault? settings q := by
  simp only [Stage.fault?, ht, List.head?_cons, Option.bind_some, base]
  cases t.nameInSource with
  | none => rfl
  | some name => cases hblank : Text.isBlankText name <;> simp [hblank, error?]

theorem error?_attr (clause : Clause) (expr : Expr) :
    error? (attr clause expr) = expr.literal?.map (.literalIn clause) := by
  cases expr <;> rfl

theorem error?_attributes :
    error? (q.projection.mapM (attr .projection)) = Stage.projection.fault? settings q := by
  rw [error?_mapM, Stage.fault?, List.map_findSome?]
  exact congrArg (q.projection.findSome? ·) (funext fun expr => error?_attr .projection expr)

theorem error?_filterOf (t : Table) : error? (filterOf settings t q.selection) = Stage.filter.fault? settings q := by
  unfold filterOf
  refine (error?_bind fun filter _ => ?_).trans (Option.or_none)
  split
  · split <;> rfl
  · rfl

theorem error?_sortKey (item : SortItem) : error? (sortKey item) = item.expr.literal?.map (.literalIn .orderBy) := by
  rw [sortKey, error?_bind_pure, error?_attr]

theorem error?_sortKeysOf : error? (sortKeysOf q.orderBy) = Stage.orderBy.fault? settings q := by
  rw [Stage.fault?]
  rcases q.orderBy with _ | _ | ⟨item, items⟩
  · rfl
  · rfl
  · rw [sortKeysOf, error?_bind_pure, error?_mapM, Option.getD_some, List.map_findSome?]
    · exact congrArg ((item :: items).findSome? ·) (funext error?_sortKey)
    · exact List.cons_ne_nil item items

theorem error?_limitOf : error? (limitOf q.limit) = Stage.limit.fault? settings q := by
  rw [Stage.fault?]
  cases q.limit with
  | none => rfl
  | some rows =>
    rw [limitOf, Option.bind_some]
    split <;> rfl

/-- A query fails for what is wrong with the first part that cannot be made. -/
theorem error?_build : error? (build settings q) = Stage.order.findSome? (Stage.fault? settings q) := by
  simp only [Stage.order, findSome?_cons_or, List.findSome?_nil]
  -- Only the base needs what was made before it: there is one table, and the base is asked of that one.
  rw [← error?_table]
  refine error?_bind fun t ht => ?_
  rw [← error?_base (table_eq_ok ht)]
  refine error?_bind fun baseName _ => ?_
  rw [← error?_attributes]
  refine error?_bind fun attributes _ => ?_
  rw [← error?_filterOf t]
  refine error?_bind fun filter _ => ?_
  rw [← error?_sortKeysOf]
  refine error?_bind fun sortKeys _ => ?_
  rw [← error?_limitOf]
  exact error?_bind fun countLimit _ => rfl

end Fault

/-! ### Queries without a fault -/

section Answerable
variable {settings : SearchSettings} {q : Query}

theorem literal?_eq_none {expr : Expr} : expr.literal? = none ↔ ∃ column, expr = .column column := by
  cases expr <;> simp [Expr.literal?]

theorem exists_hasBase {t : Table} : (∃ base, t.HasBase base) ↔ t.nameInSource.all Text.isBlankText = false := by
  unfold Table.HasBase Text.isBlankText
  cases t.nameInSource <;> simp

theorem table_base_faultless :
    Stage.table.fault? settings q = none ∧ Stage.base.fault? settings q = none ↔
      ∃ t base, q.tables = [t] ∧ t.HasBase base := by
  unfold Stage.fault?
  rcases q.tables with _ | ⟨t, _ | ⟨t', ts⟩⟩
  · simp
  · simp [exists_hasBase]
  · simp

theorem projection_faultless :
    Stage.projection.fault? settings q = none ↔ ∀ expr ∈ q.projection, ∃ column, expr = .column column := by
  simp only [Stage.fault?, Option.map_eq_none_iff, List.findSome?_eq_none_iff, literal?_eq_none]

theorem orderBy_faultless :
    Stage.orderBy.fault? settings q = none ↔
      ∀ items ∈ q.orderBy, ∀ item ∈ items, ∃ column, item.expr = .column column := by
  simp only [Stage.fault?, Option.map_eq_none_iff, List.findSome?_eq_none_iff, literal?_eq_none]
  cases q.orderBy <;> simp

theorem filter_faultless :
    Stage.filter.fault? settings q = none ↔ ∃ s, Selection.compile settings.unsearchable q.selection = .ok s :=
  error?_eq_none

theorem limit_faultless : Stage.limit.fault? settings q = none ↔ ∀ rows ∈ q.limit, 0 ≤ rows := by
  rw [Stage.fault?]
  cases q.limit <;> simp

theorem answerable_iff : q.Answerable settings ↔ ∀ stage ∈ Stage.order, stage.fault? settings q = none := by
  simp only [Stage.order, List.forall_mem_cons]
  constructor
  · rintro ⟨htable, hprojection, hselection, horderBy, hlimit⟩
    obtain ⟨htables, hbase⟩ := table_base_faultless.mpr htable
    exact ⟨htables, hbase, projection_faultless.mpr hprojection, filter_faultless.mpr hselection,
      orderBy_faultless.mpr horderBy, limit_faultless.mpr hlimit, List.forall_mem_nil _⟩
  · rintro ⟨htables, hbase, hprojection, hselection, horderBy, hlimit, -⟩
    exact ⟨table_base_faultless.mp ⟨htables, hbase⟩, projection_faultless.mp hprojection,
      filter_faultless.mp hselection, orderBy_faultless.mp horderBy, limit_faultless.mp hlimit⟩

theorem exists_build_iff : (∃ d, build settings q = .ok d) ↔ q.Answerable settings := by
  rw [← error?_eq_none, error?_build, List.findSome?_eq_none_iff, answerable_iff]

end Answerable

/-! ### Searches that are made -/

section Answers
variable {settings : SearchSettings} {q : Query}

theorem base_eq_ok {t : Table} {baseName : String} (h : base t = .ok baseName) : t.nameInSource = some baseName := by
  unfold base at h
  split at h
  · next name hname =>
    split at h
    · cases h
    · cases h
      exact hname
  · cases h

theorem attr_names {clause : Clause} {expr : Expr} {name : String} (h : attr clause expr = .ok name) :
    expr.Names name := by
  cases expr with
  | column column =>
    cases h
    exact ⟨column, rfl, rfl⟩
  | literal value => cases h

theorem sortKey_asksFor {item : SortItem} {key : SortKey} (h : sortKey item = .ok key) : item.AsksFor key := by
  obtain ⟨name, hname, hkey⟩ := bind_eq_ok.mp h
  cases hkey
  exact ⟨attr_names hname, rfl⟩

/-- Only an order by something is an order. -/
theorem sortKeysOf_eq_ok {orderBy : Option (List SortItem)} {sortKeys : Option (List SortKey)}
    (h : sortKeysOf orderBy = .ok sortKeys) :
    (sortKeys = none ↔ orderBy = none ∨ orderBy = some []) ∧
      ∀ keys ∈ sortKeys, ∃ items ∈ orderBy, List.Forall₂ SortItem.AsksFor items keys := by
  rcases orderBy with _ | _ | ⟨item, items⟩
  · cases h
    simp
  · cases h
    simp
  · rw [sortKeysOf] at h
    · obtain ⟨keys, hkeys, hpure⟩ := bind_eq_ok.mp h
      cases hpure
      have hall := (mapM_eq_ok.mp hkeys).imp fun _ _ => sortKey_asksFor
      simpa using hall
    · exact List.cons_ne_nil item items

/-- A limit is never mistaken for none: it is not negative, and `noLimit` is. -/
theorem limitOf_eq_ok {limit : Option Int64} {countLimit : Int64} (h : limitOf limit = .ok countLimit) :
    (∀ rows ∈ limit, countLimit = rows) ∧ noLimit ≤ countLimit ∧ (countLimit = noLimit ↔ limit = none) := by
  cases limit with
  | none =>
    cases h
    simp
  | some rows =>
    rw [limitOf] at h
    split at h
    · cases h
    · next hrows =>
      cases h
      have hnonneg : 0 ≤ countLimit.toInt := by
        rw [Int64.not_lt, Int64.le_iff_toInt_le] at hrows
        exact hrows
      have hminus : noLimit.toInt = -1 := rfl
      refine ⟨by simp, ?_, ?_⟩
      · rw [Int64.le_iff_toInt_le]
        omega
      · simp only [reduceCtorEq, iff_false]
        rintro rfl
        omega

theorem build_answers {d : SearchRequest} (h : build settings q = .ok d) : d.Answers settings q := by
  simp only [build, bind_eq_ok, pure_eq_ok] at h
  obtain ⟨t, ht, baseName, hbase, attributes, hattributes, filter, hfilter, sortKeys, hsortKeys, countLimit, hlimit,
    rfl⟩ := h
  obtain ⟨hunsorted, hkeys⟩ := sortKeysOf_eq_ok hsortKeys
  obtain ⟨hrows, hbound, hnone⟩ := limitOf_eq_ok hlimit
  exact {
    table := ⟨t, table_eq_ok ht, base_eq_ok hbase, by rw [String.toList_ofList, hfilter]⟩
    attributes := (mapM_eq_ok.mp hattributes).imp fun _ _ => attr_names
    scope := rfl
    unsorted := hunsorted
    sortKeys := hkeys
    limit := hrows
    countLimit := hbound
    hasNoLimit := beq_iff_eq.trans hnone
  }

end Answers

/-- A query gets a search exactly when it is on one table below an entry, asks to see and to order by columns only,
    has a condition that can be written and no negative limit. Otherwise the first of the parts that cannot be made
    decides. A search asks for what the query does. -/
theorem build_answers_or_fails_first (settings : SearchSettings) (q : Query) :
    ((∃ d, build settings q = .ok d) ↔ q.Answerable settings) ∧
      (∀ e, build settings q = .error e ↔ ∃ before stage after, Stage.order = before ++ stage :: after ∧
        stage.fault? settings q = some e ∧ ∀ earlier ∈ before, earlier.fault? settings q = none) ∧
      ∀ d, build settings q = .ok d → d.Answers settings q := by
  refine ⟨exists_build_iff, fun e => ?_, fun d => build_answers⟩
  rw [← error?_eq_some, error?_build, List.findSome?_eq_some_iff]

theorem build_answers_or_fails_first_sorted :
    let settings : SearchSettings := { scope := .subtree }
    let people : Table := { name := "people", nameInSource := some " ou=people" }
    let mail : Column := { name := "Mail", nameInSource := some "mail" }
    let age : Column := { name := "age", nameInSource := some "" }
    let q := (((Query.ofTable people).select [mail, age, mail]).sort [⟨.column age, true⟩, ⟨.column mail, false⟩]).take 0
    let d : SearchRequest := ⟨" ou=people", "(objectClass=*)", ["mail", "age", "mail"], .subtree, 0,
      some [⟨"age", false⟩, ⟨"mail", true⟩]⟩
    build settings q = .ok d ∧ q.Answerable settings ∧ d.Answers settings q ∧ d.hasNoLimit = false := by
  intro settings people mail age q d
  have hbuild : build settings q = .ok d := toOption_eq_some.mp (by decide +kernel)
  obtain ⟨hanswerable, -, hanswers⟩ := build_answers_or_fails_first settings q
  exact ⟨hbuild, hanswerable.mp ⟨d, hbuild⟩, hanswers d hbuild, rfl⟩

-- The literal to see comes before the condition that cannot be written and the negative limit.
example : error? (build {} ⟨[{ name := "people", nameInSource := some "ou=people" }],
    [.column { name := "cn" }, .literal (.int 1), .literal .null], some (.and []), none, some (-1)⟩) =
    some (.literalIn .projection (.int 1)) := by decide +kernel

end SearchRequest

end DirectorySearch
