import DirectorySearch.Proofs.Selection
import DirectorySearch.Search.Request

/-! The filter of a search, from the query that asks for it to the filter that a directory reads. -/

namespace DirectorySearch

open Token

/-- The columns that the condition of a query asks about. -/
def Query.selectionColumns (q : Query) : List Column :=
  q.selection.elim [] Condition.columns

namespace SearchRequest

/-- The item that asks for the object class of a table, where it is declared and asked for. -/
def restriction? (settings : SearchSettings) (t : Table) : Option Filter :=
  if settings.restrictToObjectClass then t.objectClass.map (.compare .equal "objectClass") else none

/-- The filter that a query on a table stands for. -/
def tree? (settings : SearchSettings) (t : Table) (selection : Option Condition) : Option Filter :=
  match selection, restriction? settings t with
  | none, none => some (.present "objectClass")
  | none, some restriction => some restriction
  | some condition, none => condition.negationNormal.tree?
  | some condition, some restriction => condition.negationNormal.tree?.map fun f => .and [restriction, f]

/-! ### Parts of a search -/

theorem table_eq_ok {q : Query} {t : Table} (h : table q = .ok t) : q.tables = [t] := by
  unfold table at h
  split at h
  · next heq =>
    cases h
    exact heq
  · cases h
  · cases h

/-- A search has the filter for the only table of its query. -/
theorem build_filter {settings : SearchSettings} {q : Query} {d : SearchRequest} (h : build settings q = .ok d) :
    ∃ t s, q.tables = [t] ∧ filterOf settings t q.selection = .ok s ∧ d.filter = .ofList s := by
  simp only [build, bind_eq_ok, pure_eq_ok] at h
  obtain ⟨t, ht, -, -, -, -, s, hs, -, -, -, -, rfl⟩ := h
  exact ⟨t, s, table_eq_ok ht, hs, rfl⟩

/-- The text that asks for an object class. -/
def restrictionText (objectClass : String) : List Char :=
  Selection.item "objectClass" ['='] (Escape.escapeChars objectClass.toList)

theorem filterOf_eq_ok {settings : SearchSettings} {t : Table} {selection : Option Condition} {s : List Char}
    (h : filterOf settings t selection = .ok s) :
    ∃ filter, Selection.compile settings.unsearchable selection = .ok filter ∧
      (restriction? settings t = none ∧ s = filter ∨
        ∃ objectClass, restriction? settings t = some (.compare .equal "objectClass" objectClass) ∧
          s = selection.elim (restrictionText objectClass) fun _ =>
            '(' :: '&' :: (restrictionText objectClass ++ filter) ++ [')']) := by
  simp only [filterOf, bind_eq_ok] at h
  obtain ⟨filter, hfilter, h⟩ := h
  refine ⟨filter, hfilter, ?_⟩
  split at h
  · next objectClass hdeclared hasked =>
    refine .inr ⟨objectClass, by rw [restriction?, if_pos hasked, hdeclared, Option.map_some], ?_⟩
    cases selection with
    | none => exact (pure_eq_ok.mp h).symm
    | some condition => simpa [restrictionText] using (pure_eq_ok.mp h).symm
  · next hnone =>
    refine .inl ⟨?_, (pure_eq_ok.mp h).symm⟩
    rw [restriction?]
    split
    · next hasked =>
      rw [Option.map_eq_none_iff, Option.eq_none_iff_forall_ne_some]
      exact fun objectClass hdeclared => hnone objectClass hdeclared hasked
    · rfl

/-! ### The filter -/

theorem attribute_objectClass : Attribute "objectClass".toList :=
  isAttribute_iff.mp (by decide)

theorem writes_everything : Selection.Writes ["objectClass"] Selection.everything (.present "objectClass") :=
  .item (i := .present "objectClass") rfl trivial attribute_objectClass.chars

theorem writes_restriction (objectClass : String) :
    Selection.Writes ["objectClass"] (restrictionText objectClass) (.compare .equal "objectClass" objectClass) :=
  .item (i := .compare .equal "objectClass" objectClass) rfl trivial attribute_objectClass.chars

/-- Beside the attributes of its condition, a query asks about the object class only. -/
theorem filterOf_writes {settings : SearchSettings} {t : Table} {selection : Option Condition} {s : List Char}
    (h : filterOf settings t selection = .ok s) :
    ∃ attrs f, tree? settings t selection = some f ∧ Selection.Writes attrs s f ∧
      ((∀ a ∈ attrs, Attribute a.toList) ↔
        ∀ column ∈ selection.elim [] Condition.columns, Attribute column.sourceName.toList) := by
  have hclass (attrs : List String) :
      (∀ a ∈ "objectClass" :: attrs, Attribute a.toList) ↔ ∀ a ∈ attrs, Attribute a.toList := by
    rw [List.forall_mem_cons, and_iff_right attribute_objectClass]
  obtain ⟨filter, hfilter, ⟨hnone, rfl⟩ | ⟨objectClass, hsome, rfl⟩⟩ := filterOf_eq_ok h
  · cases selection with
    | none =>
      cases pure_eq_ok.mp hfilter
      exact ⟨_, _, by simp [tree?, hnone], writes_everything, (hclass []).trans (by simp)⟩
    | some condition =>
      obtain ⟨f, hf, hwrites⟩ := Selection.compile_writes hfilter
      exact ⟨_, f, by simp [tree?, hnone, hf], hwrites, List.forall_mem_map⟩
  · have hrestriction := writes_restriction objectClass
    cases selection with
    | none => exact ⟨_, _, by simp [tree?, hsome], hrestriction, (hclass []).trans (by simp)⟩
    | some condition =>
      obtain ⟨f, hf, hwrites⟩ := Selection.compile_writes hfilter
      have hboth := Selection.WritesAll.cons hrestriction (.cons hwrites .nil)
      rw [List.append_nil, List.append_nil] at hboth
      exact ⟨_, _, by simp [tree?, hsome, hf], hboth.and (List.cons_ne_nil _ _), (hclass _).trans List.forall_mem_map⟩

/-- A search has a filter that can be read exactly when its condition is on attributes that are descriptions.
    It is read as the filter that the query stands for, and it is the canonical text of that one. -/
theorem filter_readable (settings : SearchSettings) (q : Query) (d : SearchRequest) (h : build settings q = .ok d) :
    ((∃ f, Filter.parse d.filter = .ok f) ↔ ∀ column ∈ q.selectionColumns, Attribute column.sourceName.toList) ∧
      ∃ t f, q.tables = [t] ∧ tree? settings t q.selection = some f ∧
        ∀ g, Filter.parse d.filter = .ok g → g = f ∧ g.render = d.filter := by
  obtain ⟨t, s, htables, hs, hfilter⟩ := build_filter h
  obtain ⟨attrs, f, hf, hwrites, hattrs⟩ := filterOf_writes hs
  rw [hfilter]
  refine ⟨hwrites.parse_ok_iff.trans hattrs, t, f, htables, hf, fun g hg => ?_⟩
  have hparse : Filter.parse (.ofList s) = .ok f := hwrites.parse_eq (hwrites.parse_ok_iff.mp ⟨g, hg⟩)
  rw [hparse] at hg
  cases hg
  exact ⟨rfl, by rw [Filter.render, ← hwrites.text]⟩

theorem filter_readable_people :
    let settings : SearchSettings := { restrictToObjectClass := true }
    let people : Table := { name := "people", nameInSource := some "ou=people", objectClass := some "person" }
    let mail : Column := { name := "mail", nameInSource := some "mail;lang-en" }
    let q := (Query.ofTable people).filter (.not (.or [.comparison .lt { name := "age" } (.int 18),
      .matchingEscaped mail "%*!%%%x" '!']))
    let d : SearchRequest := ⟨"ou=people", "(&(objectClass=person)(&(age>=18)(!(mail;lang-en=*\\2a%*x))))", [],
      .oneLevel, -1, none⟩
    build settings q = .ok d ∧
      ∃ f, Filter.parse d.filter = .ok f ∧ tree? settings people q.selection = some f ∧ f.render = d.filter := by
  intro settings people mail q d
  have hbuild : build settings q = .ok d := toOption_eq_some.mp (by decide +kernel)
  obtain ⟨hiff, t, f, ht, hf, hread⟩ := filter_readable settings q d hbuild
  cases ht
  obtain ⟨g, hg⟩ := hiff.mpr (by decide +kernel)
  obtain ⟨rfl, hrender⟩ := hread g hg
  exact ⟨hbuild, g, hg, hf, hrender⟩

end SearchRequest

end DirectorySearch
