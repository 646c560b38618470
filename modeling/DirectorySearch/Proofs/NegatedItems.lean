import DirectorySearch.Proofs.Request

/-! What the filter of a search negates. Its condition is written with the negations at the leaves, so a
    negation is left around an item or around the equalities of a list of values, and nowhere else. -/

namespace DirectorySearch

open Token

/-! ### Filters inside filters -/

namespace FilterTree
variable {α : Type}

mutual

/-- A filter and all filters inside it, depth first and from left to right. -/
def subfilters : FilterTree α → List (FilterTree α)
  | .and parts => .and parts :: allSubfilters parts
  | .or parts => .or parts :: allSubfilters parts
  | .not part => .not part :: subfilters part
  | .compare relation attr value => [.compare relation attr value]
  | .present attr => [.present attr]
  | .substrings attr initial any final => [.substrings attr initial any final]

def allSubfilters : List (FilterTree α) → List (FilterTree α)
  | [] => []
  | part :: parts => subfilters part ++ allSubfilters parts

end

theorem subfilters_toFilter (i : Item α) : i.toFilter.subfilters = [i.toFilter] := by
  cases i <;> rfl

end FilterTree

/-! ### What may be negated -/

/-- An item of a kind that conditions ask for: not for a similar value. -/
def Item.IsExact {α : Type} : Item α → Prop
  | .compare relation _ _ => relation ≠ .approx
  | .present _ | .substrings .. => True

/-- A filter that may be negated: an item, or the equalities of one attribute with the values of a list. -/
inductive Negatable : Filter → Prop
  | item {i : Item String} (h : i.IsExact) : Negatable i.toFilter
  | oneOf (attr : String) {values : List String} (h : values ≠ []) :
    Negatable (.or (values.map (.compare .equal attr)))

namespace Negatable

theorem ne_and {g : Filter} (h : Negatable g) (parts : List Filter) : g ≠ .and parts := by
  cases h with
  | @item i _ => cases i <;> rintro ⟨⟩
  | oneOf attr hne => rintro ⟨⟩

theorem ne_not {g : Filter} (h : Negatable g) (part : Filter) : g ≠ .not part := by
  cases h with
  | @item i _ => cases i <;> rintro ⟨⟩
  | oneOf attr hne => rintro ⟨⟩

end Negatable

namespace FilterTree

/-- If it is a negation, it is one of something that may be negated. -/
def NegatesItem : Filter → Prop
  | .not g => Negatable g
  | _ => True

/-- Every negation inside a filter is one of something that may be negated. -/
def NegatesItems (f : Filter) : Prop :=
  ∀ g ∈ f.subfilters, NegatesItem g

/-- The same for the parts of a group. -/
def AllNegateItems (fs : List Filter) : Prop :=
  ∀ g ∈ allSubfilters fs, NegatesItem g

theorem negatesItems_item (i : Item String) : NegatesItems i.toFilter := by
  rw [NegatesItems, subfilters_toFilter, List.forall_mem_singleton]
  cases i <;> trivial

theorem allNegateItems_nil : AllNegateItems [] :=
  List.forall_mem_nil _

theorem allNegateItems_cons {f : Filter} {fs : List Filter} (hf : NegatesItems f) (hfs : AllNegateItems fs) :
    AllNegateItems (f :: fs) :=
  List.forall_mem_append.mpr ⟨hf, hfs⟩

theorem AllNegateItems.and {fs : List Filter} (h : AllNegateItems fs) : NegatesItems (.and fs) :=
  List.forall_mem_cons.mpr ⟨trivial, h⟩

theorem AllNegateItems.or {fs : List Filter} (h : AllNegateItems fs) : NegatesItems (.or fs) :=
  List.forall_mem_cons.mpr ⟨trivial, h⟩

theorem NegatesItems.negatedIf {f : Filter} (h : NegatesItems f) (hf : Negatable f) (negated : Bool) :
    NegatesItems (.negatedIf negated f) := by
  cases negated with
  | false => exact h
  | true => exact List.forall_mem_cons.mpr ⟨hf, h⟩

theorem allNegateItems_equalities (attr : String) (values : List String) :
    AllNegateItems (values.map (.compare .equal attr)) := by
  induction values with
  | nil => exact allNegateItems_nil
  | cons value values ih => exact allNegateItems_cons (negatesItems_item (.compare .equal attr value)) ih

end FilterTree

/-! ### Conditions -/

open FilterTree

theorem Item.IsExact.normal {i : Item String} (h : i.IsExact) : i.normal.IsExact := by
  cases i with
  | compare relation attr value => exact h
  | present attr => exact h
  | substrings attr initial any final =>
    simp only [Item.normal]
    split <;> trivial

theorem Like.isExact_item (attr : String) (first : List Char) (others : List (List Char)) :
    (Like.item attr first others).IsExact := by
  cases others with
  | nil => exact Relation.noConfusion
  | cons next others => exact Item.IsExact.normal (i := .substrings attr _ _ _) trivial

theorem Comparator.negatesItems_filter (op : Comparator) (attr value : String) :
    NegatesItems (op.filter attr value) := by
  have hitem (relation : Relation) (hexact : relation ≠ .approx) (negated : Bool) :
      NegatesItems (.negatedIf negated (.compare relation attr value)) :=
    (negatesItems_item (.compare relation attr value)).negatedIf (.item (i := .compare relation attr value) hexact) negated
  cases op with
  | eq => exact hitem .equal Relation.noConfusion false
  | le => exact hitem .lessOrEqual Relation.noConfusion false
  | ge => exact hitem .greaterOrEqual Relation.noConfusion false
  | ne => exact hitem .equal Relation.noConfusion true
  | gt => exact hitem .lessOrEqual Relation.noConfusion true
  | lt => exact hitem .greaterOrEqual Relation.noConfusion true

namespace Condition

mutual

/-- The filter for a condition in normal form negates nothing but items and lists of values. -/
theorem negatesItems_tree {p : Item String → Prop} : ∀ (c : Condition) (negate : Bool) {f : Filter},
    (c.normal negate).tree? = some f → f.WellFormed p → NegatesItems f
  | .comparison op column value, negate, f, h, _ => by
    obtain ⟨text, -, rfl⟩ := Option.map_eq_some_iff.mp h
    exact Comparator.negatesItems_filter _ _ _
  | .not condition, negate, f, h, hf => negatesItems_tree condition (!negate) h hf
  | .and conditions, negate, f, h, hf => by
    cases negate with
    | false =>
      obtain ⟨fs, hfs, rfl⟩ := Option.map_eq_some_iff.mp h
      exact (allNegateItems_trees conditions false hfs hf.2).and
    | true =>
      obtain ⟨fs, hfs, rfl⟩ := Option.map_eq_some_iff.mp h
      exact (allNegateItems_trees conditions true hfs hf.2).or
  | .or conditions, negate, f, h, hf => by
    cases negate with
    | false =>
      obtain ⟨fs, hfs, rfl⟩ := Option.map_eq_some_iff.mp h
      exact (allNegateItems_trees conditions false hfs hf.2).or
    | true =>
      obtain ⟨fs, hfs, rfl⟩ := Option.map_eq_some_iff.mp h
      exact (allNegateItems_trees conditions true hfs hf.2).and
  | .like column pattern escape negated, negate, f, h, _ => by
    obtain ⟨runs, -, rfl⟩ := Option.map_eq_some_iff.mp h
    exact (negatesItems_item _).negatedIf (.item (Like.isExact_item _ _ _)) _
  | .inList column values negated, negate, f, h, hf => by
    obtain ⟨texts, -, rfl⟩ := Option.map_eq_some_iff.mp h
    -- A list without values would be a group without parts, which is not well formed, negated or not.
    have hne : texts ≠ [] := by
      rintro rfl
      cases hnegated : negated ^^ negate <;> rw [hnegated] at hf <;> exact hf.1 rfl
    exact (allNegateItems_equalities column.sourceName texts).or.negatedIf (.oneOf column.sourceName hne) _
  | .isNull column negated, negate, f, h, _ => by
    cases h
    exact (negatesItems_item (.present column.sourceName)).negatedIf (.item (i := .present column.sourceName) trivial) _

theorem allNegateItems_trees {p : Item String → Prop} : ∀ (cs : List Condition) (negate : Bool) {fs : List Filter},
    trees? (normalAll negate cs) = some fs → AllWellFormed p fs → AllNegateItems fs
  | [], negate, fs, h, _ => by
    cases h
    exact allNegateItems_nil
  | c :: cs, negate, fs, h, hfs => by
    obtain ⟨f, hf, hrest⟩ := Option.bind_eq_some_iff.mp h
    obtain ⟨gs, hgs, rfl⟩ := Option.map_eq_some_iff.mp hrest
    exact allNegateItems_cons (negatesItems_tree c negate hf hfs.1) (allNegateItems_trees cs negate hgs hfs.2)

end

end Condition

/-! ### Searches -/

namespace SearchRequest

theorem negatesItems_tree? {settings : SearchSettings} {t : Table} {selection : Option Condition} {f : Filter}
    {p : Item String → Prop} (h : tree? settings t selection = some f) (hf : f.WellFormed p) : NegatesItems f := by
  have hrestriction {g : Filter} (hg : restriction? settings t = some g) : NegatesItems g := by
    unfold restriction? at hg
    split at hg
    · obtain ⟨objectClass, -, rfl⟩ := Option.map_eq_some_iff.mp hg
      exact negatesItems_item (.compare .equal "objectClass" objectClass)
    · cases hg
  unfold tree? at h
  split at h
  · cases h
    exact negatesItems_item (.present "objectClass")
  · next g hg =>
    cases h
    exact hrestriction hg
  · next condition _ => exact condition.negatesItems_tree false h hf
  · next condition g hg =>
    obtain ⟨tree, htree, rfl⟩ := Option.map_eq_some_iff.mp h
    have hcondition := condition.negatesItems_tree false htree hf.2.2.1
    exact (allNegateItems_cons (hrestriction hg) (allNegateItems_cons hcondition allNegateItems_nil)).and

/-- The filter of a search on described attributes is read as one that negates nothing but items and lists of
    equalities on one attribute, and so no group of other conditions and no negation. -/
theorem filter_negates_items (settings : SearchSettings) (q : Query) (d : SearchRequest) (h : build settings q = .ok d)
    (hattrs : ∀ column ∈ q.selectionColumns, Attribute column.sourceName.toList) :
    ∃ f, Filter.parse d.filter = .ok f ∧ (∀ g, .not g ∈ f.subfilters → Negatable g) ∧
      (∀ parts, .not (.and parts) ∉ f.subfilters) ∧ ∀ part, .not (.not part) ∉ f.subfilters := by
  obtain ⟨t, s, -, hs, hfilter⟩ := build_filter h
  obtain ⟨attrs, f, hf, hwrites, hdescribed⟩ := filterOf_writes hs
  have hparse : Filter.parse (.ofList s) = .ok f := hwrites.parse_eq (hdescribed.mpr hattrs)
  have hnegates : ∀ g, .not g ∈ f.subfilters → Negatable g := fun g hg => negatesItems_tree? hf hwrites.normal (.not g) hg
  refine ⟨f, hfilter ▸ hparse, hnegates, ?_, ?_⟩
  · intro parts hmem
    exact (hnegates _ hmem).ne_and parts rfl
  · intro part hmem
    exact (hnegates _ hmem).ne_not part rfl

theorem filter_negates_items_nested :
    let settings : SearchSettings := { restrictToObjectClass := true }
    let people : Table := { name := "people", nameInSource := some "ou=people", objectClass := some "person" }
    let age : Column := { name := "age" }
    let q := (Query.ofTable people).filter (.not (.and [.not (.comparison .gt age (.int 18)),
      .or [.among age [.int 3, .int 4], .not (.not (.matching { name := "cn" } "a%"))]]))
    let d : SearchRequest := ⟨"ou=people",
      "(&(objectClass=person)(|(!(age<=18))(&(!(|(age=3)(age=4)))(!(cn=a*)))))", [], .oneLevel, -1, none⟩
    build settings q = .ok d ∧ (∀ column ∈ q.selectionColumns, Attribute column.sourceName.toList) ∧
      ∃ f, Filter.parse d.filter = .ok f ∧ ∀ g, .not g ∈ f.subfilters → Negatable g := by
  intro settings people age q d
  have hbuild : build settings q = .ok d := toOption_eq_some.mp (by decide +kernel)
  have hattrs : ∀ column ∈ q.selectionColumns, Attribute column.sourceName.toList := by decide +kernel
  obtain ⟨f, hparse, hnegates, -, -⟩ := filter_negates_items settings q d hbuild hattrs
  exact ⟨hbuild, hattrs, f, hparse, hnegates⟩

end SearchRequest

end DirectorySearch
