import DirectorySearch.Proofs.Columns
import DirectorySearch.Search.Request

/-! What a search takes from the names of tables and columns. A table is searched below its entry and a column stands
    for its attribute, so where these are given the names are for messages only. -/

namespace DirectorySearch

/-! ### Renaming -/

/-- Tables that differ in their names only. -/
def Table.Renamed (t t' : Table) : Prop :=
  t.nameInSource = t'.nameInSource ∧ t.objectClass = t'.objectClass

/-- Columns that differ in their names only, and not there where the name is that of the attribute. -/
structure Column.Renamed (a b : Column) : Prop where
  nameInSource : a.nameInSource = b.nameInSource
  searchability : a.searchability = b.searchability
  name : a.name = b.name ∨ ∃ attr, a.nameInSource = some attr ∧ attr ≠ ""

/-- Two expressions are the same but for a column, which `r` relates. -/
inductive Expr.SameBut (r : Column → Column → Prop) : Expr → Expr → Prop
  | column {a b : Column} (h : r a b) : SameBut r (.column a) (.column b)
  | literal (value : Literal) : SameBut r (.literal value) (.literal value)

def SortItem.SameBut (r : Column → Column → Prop) (item item' : SortItem) : Prop :=
  item.expr.SameBut r item'.expr ∧ item.descending = item'.descending

/-- Queries that differ in the names of tables and columns only, and not there where a name is that of an
    attribute. -/
structure Query.Renamed (q q' : Query) : Prop where
  tables : List.Forall₂ Table.Renamed q.tables q'.tables
  projection : List.Forall₂ (Expr.SameBut Column.Renamed) q.projection q'.projection
  selection : Option.Rel (Condition.SameBut Column.Renamed) q.selection q'.selection
  orderBy : Option.Rel (List.Forall₂ (SortItem.SameBut Column.Renamed)) q.orderBy q'.orderBy
  limit : q.limit = q'.limit

/-! ### Columns -/

namespace Column.Renamed
variable {a b : Column}

theorem sourceName (h : a.Renamed b) : a.sourceName = b.sourceName := by
  unfold Column.sourceName
  rcases h.name with hname | ⟨attr, hattr, hne⟩
  · rw [h.nameInSource, hname]
  · have hsome : attr.isEmpty = false := by simpa using hne
    rw [← h.nameInSource, hattr]
    simp [hsome]

/-- A column does the same under another name: the problems it makes are of the same kinds. -/
theorem interchangeable (h : a.Renamed b) (policy : UnsearchablePolicy) : a.Interchangeable policy Problem.kind b where
  usage usage := by
    have hallows : a.allows usage = b.allows usage := by cases usage <;> simp only [Column.allows, h.searchability]
    unfold Column.checkUsage
    rw [hallows]
    split
    · rfl
    · cases policy <;> rfl
  attr := by
    rw [Column.attr, Column.attr, h.sourceName]
    split <;> rfl
  emptyList := rfl

end Column.Renamed

/-! ### Parts of a search -/

namespace SearchRequest

/-- There is one table or there is none under any names. -/
theorem table_renamed {q q' : Query} (h : List.Forall₂ Table.Renamed q.tables q'.tables) :
    (∃ t t', table q = .ok t ∧ table q' = .ok t' ∧ t.Renamed t') ∨ ∃ e, table q = .error e ∧ table q' = .error e := by
  unfold table
  generalize q.tables = tables, q'.tables = tables' at h ⊢
  rcases h with _ | ⟨ht, _ | ⟨ht', hts⟩⟩
  · exact .inr ⟨_, rfl, rfl⟩
  · exact .inl ⟨_, _, rfl, rfl, ht⟩
  · exact .inr ⟨_, rfl, by simp [hts.length_eq]⟩

theorem base_renamed {t t' : Table} (h : t.Renamed t') :
    (base t).mapError Problem.kind = (base t').mapError Problem.kind := by
  rw [base, base, h.1]
  cases t'.nameInSource with
  | none => rfl
  | some name =>
    dsimp only
    split <;> rfl

theorem attr_renamed (clause : Clause) {expr expr' : Expr} (h : expr.SameBut Column.Renamed expr') :
    attr clause expr = attr clause expr' := by
  cases h with
  | column h => exact congrArg Except.ok h.sourceName
  | literal value => rfl

theorem sortKey_renamed {item item' : SortItem} (h : item.SameBut Column.Renamed item') : sortKey item = sortKey item' := by
  rw [sortKey, sortKey, attr_renamed .orderBy h.1, h.2]

theorem sortKeysOf_renamed {orderBy orderBy' : Option (List SortItem)}
    (h : Option.Rel (List.Forall₂ (SortItem.SameBut Column.Renamed)) orderBy orderBy') :
    sortKeysOf orderBy = sortKeysOf orderBy' := by
  cases h with
  | none => rfl
  | some h =>
    cases h with
    | nil => rfl
    | cons hitem hitems =>
      have hkeys := mapM_congr_forall₂ ((List.Forall₂.cons hitem hitems).imp fun _ _ => sortKey_renamed)
      simp only [sortKeysOf, hkeys]

theorem filterOf_renamed {settings : SearchSettings} {t t' : Table} {selection selection' : Option Condition}
    (ht : t.Renamed t') (h : Option.Rel (Condition.SameBut Column.Renamed) selection selection') :
    (filterOf settings t selection).mapError Problem.kind = (filterOf settings t' selection').mapError Problem.kind := by
  have hcompile := Selection.mapError_compile (fun hcolumn => hcolumn.interchangeable settings.unsearchable) h
  rw [filterOf, filterOf, ht.2]
  refine mapError_bind_congr hcompile fun filter => ?_
  cases h <;> rfl

/-- Names of tables, and of columns that have an attribute of their own, do not reach the search: under other names
    a query gets the same search, or fails with a problem of the same kind. -/
theorem names_do_not_leak (settings : SearchSettings) (q q' : Query) (h : q.Renamed q') :
    (∃ d, build settings q = .ok d ∧ build settings q' = .ok d) ∨
      ∃ e e', build settings q = .error e ∧ build settings q' = .error e' ∧ e.kind = e'.kind := by
  refine mapError_eq_iff.mp ?_
  unfold build
  rcases table_renamed h.tables with ⟨t, t', ht, ht', hrenamed⟩ | ⟨e, he, he'⟩
  · have hattributes := mapM_congr_forall₂ (h.projection.imp fun _ _ => attr_renamed .projection)
    have hsortKeys := sortKeysOf_renamed h.orderBy
    rw [ht, ht', ok_bind, ok_bind, hattributes, hsortKeys, h.limit]
    -- What is left to compare is what the two tables and the two conditions give.
    refine mapError_bind_congr (base_renamed hrenamed) fun baseName => ?_
    refine mapError_bind_congr rfl fun attributes => ?_
    exact mapError_bind_congr (filterOf_renamed hrenamed h.selection) fun filter => rfl
  · rw [he, he']
    rfl

theorem names_do_not_leak_people :
    let people (name : String) : Table := { name, nameInSource := some "ou=people" }
    let mail (name : String) : Column := { name, nameInSource := some "mail" }
    let age : Column := { name := "age" }
    let q (table column : String) : Query := (((Query.ofTable (people table)).select [mail column, age]).filter
      (.not (.or [.among (mail column) [.string "a"], .comparison .lt age (.int 18)]))).sort [⟨.column (mail column), true⟩]
    let d : SearchRequest := ⟨"ou=people", "(&(!(|(mail=a)))(age>=18))", ["mail", "age"], .oneLevel, -1,
      some [⟨"mail", false⟩]⟩
    (q "people" "Mail").Renamed (q "ou=secret" "userPassword") ∧ build {} (q "people" "Mail") = .ok d ∧
      build {} (q "ou=secret" "userPassword") = .ok d := by
  intro people mail age q d
  have hmail : (mail "Mail").Renamed (mail "userPassword") := ⟨rfl, rfl, .inr ⟨"mail", rfl, by decide⟩⟩
  have hage : age.Renamed age := ⟨rfl, rfl, .inl rfl⟩
  have hrenamed : (q "people" "Mail").Renamed (q "ou=secret" "userPassword") := {
    tables := .cons ⟨rfl, rfl⟩ .nil
    projection := .cons (.column hmail) (.cons (.column hage) .nil)
    selection := .some (.not (.or (.cons (.inList _ _ hmail) (.cons (.comparison _ _ hage) .nil))))
    orderBy := .some (.cons ⟨.column hmail, rfl⟩ .nil)
    limit := rfl
  }
  have hbuild : build {} (q "people" "Mail") = .ok d := toOption_eq_some.mp (by decide +kernel)
  rcases names_do_not_leak {} _ _ hrenamed with ⟨d', hd', hd''⟩ | ⟨e, e', he, -, -⟩
  · rw [hbuild] at hd'
    cases hd'
    exact ⟨hrenamed, hbuild, hd''⟩
  · rw [hbuild] at he
    cases he

end SearchRequest

end DirectorySearch
