import DirectorySearch.Proofs.Like
import DirectorySearch.Search.Selection

/-! What the text of a condition says. A condition that can be written down stands for a filter, and its
    text is the text of that filter, so reading it back depends on the attributes alone. -/

namespace DirectorySearch

open Token

/-! ### The filter a condition stands for -/

/-- The filter for a comparison with a text. Strict comparisons have no item of their own. -/
def Comparator.filter (op : Comparator) (attr value : String) : Filter :=
  match op with
  | .eq => .compare .equal attr value
  | .ne => .not (.compare .equal attr value)
  | .lt => .not (.compare .greaterOrEqual attr value)
  | .le => .compare .lessOrEqual attr value
  | .gt => .not (.compare .lessOrEqual attr value)
  | .ge => .compare .greaterOrEqual attr value

/-- The text of a literal that can be compared with. -/
def Literal.text? (value : Literal) : Option String :=
  value.assertion.toOption

/-- A filter or its negation. -/
def FilterTree.negatedIf {α : Type} (negated : Bool) (f : FilterTree α) : FilterTree α :=
  if negated then .not f else f

namespace Condition

mutual

/-- The columns that a condition asks about, from left to right. -/
def columns : Condition → List Column
  | .comparison _ column _ => [column]
  | .not condition => columns condition
  | .and conditions => allColumns conditions
  | .or conditions => allColumns conditions
  | .like column _ _ _ => [column]
  | .inList column _ _ => [column]
  | .isNull column _ => [column]

def allColumns : List Condition → List Column
  | [] => []
  | condition :: conditions => columns condition ++ allColumns conditions

end

mutual

/-- The filter that a condition stands for, if its values and patterns can be told. -/
def tree? : Condition → Option Filter
  | .comparison op column value => value.text?.map fun text => op.filter column.sourceName text
  | .not condition => (tree? condition).map .not
  | .and conditions => (trees? conditions).map .and
  | .or conditions => (trees? conditions).map .or
  | .like column pattern escape negated => ((Like.signs? escape pattern.toList).bind Like.runs?).map fun runs =>
    .negatedIf negated (Like.item column.sourceName runs.1 runs.2).toFilter
  | .inList column values negated => (values.mapM Literal.text?).map fun texts =>
    .negatedIf negated (.or (texts.map (.compare .equal column.sourceName)))
  | .isNull column negated => some (.negatedIf (!negated) (.present column.sourceName))

def trees? : List Condition → Option (List Filter)
  | [] => some []
  | condition :: conditions => (tree? condition).bind fun t => (trees? conditions).map (t :: ·)

end

end Condition

namespace Selection

/-! ### Texts that stand for filters -/

/-- The text `s` is the text of the filter `t`, in the form that texts show, with items on the attributes
    `attrs` and no others, all spelled as attributes may be. -/
structure Writes (attrs : List String) (s : List Char) (t : Filter) : Prop where
  text : s = Writer.filter t
  normal : t.WellFormed Item.Normal
  attr : ∀ p : String → Prop, (t.WellFormed fun i => p i.attr) ↔ ∀ a ∈ attrs, p a
  chars : ∀ a ∈ attrs, AttributeChars a.toList

/-- The same for the parts of a group. -/
structure WritesAll (attrs : List String) (s : List Char) (ts : List Filter) : Prop where
  text : s = Writer.filters ts
  normal : FilterTree.AllWellFormed Item.Normal ts
  attr : ∀ p : String → Prop, FilterTree.AllWellFormed (fun i => p i.attr) ts ↔ ∀ a ∈ attrs, p a
  chars : ∀ a ∈ attrs, AttributeChars a.toList

section Writes
variable {attrs attrs' : List String} {s s' : List Char} {t : Filter} {ts : List Filter}

theorem Writes.item {i : Item String} (htext : s = Writer.filter i.toFilter) (hnormal : i.Normal)
    (hchars : AttributeChars i.attr.toList) : Writes [i.attr] s i.toFilter where
  text := htext
  normal := (FilterTree.wellFormed_toFilter _ _).mpr hnormal
  attr p := by rw [FilterTree.wellFormed_toFilter, List.forall_mem_singleton]
  chars := by rwa [List.forall_mem_singleton]

theorem Writes.negation (h : Writes attrs s t) : Writes attrs (Selection.negation s) (.not t) where
  text := by rw [h.text]; rfl
  normal := h.normal
  attr := h.attr
  chars := h.chars

theorem Writes.negatedIf (h : Writes attrs s t) (negated : Bool) :
    Writes attrs (Selection.negatedIf negated s) (.negatedIf negated t) := by
  cases negated with
  | false => exact h
  | true => exact h.negation

theorem WritesAll.nil : WritesAll [] [] [] where
  text := rfl
  normal := trivial
  attr p := by simp [FilterTree.AllWellFormed]
  chars := by simp

theorem WritesAll.cons (h : Writes attrs s t) (hs : WritesAll attrs' s' ts) :
    WritesAll (attrs ++ attrs') (s ++ s') (t :: ts) where
  text := by rw [h.text, hs.text]; rfl
  normal := ⟨h.normal, hs.normal⟩
  attr p := by rw [FilterTree.AllWellFormed, h.attr, hs.attr, List.forall_mem_append]
  chars := List.forall_mem_append.mpr ⟨h.chars, hs.chars⟩

theorem WritesAll.and (h : WritesAll attrs s ts) (hne : ts ≠ []) :
    Writes attrs ('(' :: '&' :: s ++ [')']) (.and ts) where
  text := by rw [h.text]; rfl
  normal := ⟨hne, h.normal⟩
  attr p := by rw [FilterTree.WellFormed, h.attr, and_iff_right hne]
  chars := h.chars

theorem WritesAll.or (h : WritesAll attrs s ts) (hne : ts ≠ []) :
    Writes attrs ('(' :: '|' :: s ++ [')']) (.or ts) where
  text := by rw [h.text]; rfl
  normal := ⟨hne, h.normal⟩
  attr p := by rw [FilterTree.WellFormed, h.attr, and_iff_right hne]
  chars := h.chars

/-- Only which attributes there are matters. -/
theorem Writes.congr (h : Writes attrs s t) (hattrs : ∀ a, a ∈ attrs ↔ a ∈ attrs') : Writes attrs' s t where
  text := h.text
  normal := h.normal
  attr p := by simp only [h.attr, hattrs]
  chars a ha := h.chars a ((hattrs a).mpr ha)

theorem Writes.eq_text (h : Writes attrs s t) : s = RawFilter.text (Filter.escaped t) := by
  rw [h.text, Filter.writer_eq_text, Filter.normal_eq_self h.normal]

/-- A text is read exactly when all attributes are descriptions, as the filter it stands for. -/
theorem Writes.parse_eq (h : Writes attrs s t) (hattrs : ∀ a ∈ attrs, Attribute a.toList) :
    Filter.parse (.ofList s) = .ok t := by
  have hdescribed : t.WellFormed Item.Described := (h.attr fun a => Attribute a.toList).mpr hattrs
  rw [h.eq_text]
  exact Filter.parse_escaped (hdescribed.and h.normal)

theorem Writes.parse_refused (h : Writes attrs s t) (hattrs : ¬∀ a ∈ attrs, Attribute a.toList) :
    ∃ e, Filter.parse (.ofList s) = .error e := by
  have hchars : t.WellFormed fun i => AttributeChars i.attr.toList :=
    (h.attr fun a => AttributeChars a.toList).mpr h.chars
  rw [h.eq_text]
  refine Filter.parse_refused (hchars.and h.normal) fun hdescribed => hattrs ?_
  exact (h.attr fun a => Attribute a.toList).mp hdescribed

theorem Writes.parse_ok_iff (h : Writes attrs s t) :
    (∃ f, Filter.parse (.ofList s) = .ok f) ↔ ∀ a ∈ attrs, Attribute a.toList := by
  constructor
  · rintro ⟨f, hf⟩
    refine Decidable.byContradiction fun hattrs => ?_
    obtain ⟨e, he⟩ := h.parse_refused hattrs
    rw [he] at hf
    cases hf
  · exact fun hattrs => ⟨t, h.parse_eq hattrs⟩

end Writes

/-! ### Leaves -/

theorem attr_eq_ok {column : Column} {attr : String} (h : column.attr = .ok attr) :
    attr = column.sourceName ∧ AttributeChars attr.toList := by
  rw [Column.attr] at h
  split at h
  · next hname =>
    cases h
    refine ⟨rfl, fun c hc => ?_⟩
    simp only [Bool.and_eq_true, List.all_eq_true] at hname
    simpa [Column.isAttributeChar, isKeyChar, or_assoc] using hname.2 c hc
  · cases h

section Leaf
variable {policy : UnsearchablePolicy} {column : Column} {s : List Char}

theorem comparison_writes {op : Comparator} {value : Literal} (h : comparison policy op column value = .ok s) :
    ∃ text, value.text? = some text ∧ Writes [column.sourceName] s (op.filter column.sourceName text) := by
  simp only [comparison, bind_eq_ok] at h
  obtain ⟨-, -, attr, hattr, text, htext, h⟩ := h
  obtain ⟨rfl, hchars⟩ := attr_eq_ok hattr
  refine ⟨text, toOption_eq_some.mpr htext, ?_⟩
  have hitem (relation : Relation) := Writes.item (i := .compare relation column.sourceName text) rfl trivial hchars
  cases op <;> cases pure_eq_ok.mp h
  case eq => exact hitem .equal
  case le => exact hitem .lessOrEqual
  case ge => exact hitem .greaterOrEqual
  case ne => exact (hitem .equal).negation
  case gt => exact (hitem .lessOrEqual).negation
  case lt => exact (hitem .greaterOrEqual).negation

theorem like_writes {pattern : String} {escape : Option Char} {negated : Bool}
    (h : like policy column pattern escape negated = .ok s) :
    ∃ t, (Condition.like column pattern escape negated).tree? = some t ∧ Writes [column.sourceName] s t := by
  simp only [like, bind_eq_ok] at h
  obtain ⟨-, -, attr, hattr, body, hbody, h⟩ := h
  obtain ⟨rfl, hchars⟩ := attr_eq_ok hattr
  obtain ⟨runs, hruns, rfl⟩ := (Like.body_eq_ok false body).mp hbody
  cases pure_eq_ok.mp h
  refine ⟨_, by rw [Condition.tree?, hruns, Option.map_some], Writes.negatedIf ?_ negated⟩
  have hitem := Writes.item (Like.writer_item column.sourceName runs.1 runs.2).symm (Like.item_normal _ _ _)
    (by rwa [Like.attr_item])
  rwa [Like.attr_item] at hitem

theorem equalities_writes {values : List Literal} (h : equalities policy column values = .ok s) :
    ∃ texts, values.mapM Literal.text? = some texts ∧
      WritesAll (.replicate values.length column.sourceName) s (texts.map (.compare .equal column.sourceName)) := by
  induction values generalizing s with
  | nil =>
    cases pure_eq_ok.mp h
    exact ⟨[], rfl, .nil⟩
  | cons value values ih =>
    simp only [equalities, bind_eq_ok, pure_eq_ok] at h
    obtain ⟨first, hfirst, others, hothers, rfl⟩ := h
    obtain ⟨text, htext, hwrites⟩ := comparison_writes hfirst
    obtain ⟨texts, htexts, hall⟩ := ih hothers
    exact ⟨text :: texts, by simp [List.mapM_cons, htext, htexts], .cons hwrites hall⟩

theorem inList_writes {values : List Literal} {negated : Bool} (h : inList policy column values negated = .ok s) :
    ∃ t, (Condition.inList column values negated).tree? = some t ∧ Writes [column.sourceName] s t := by
  cases values with
  | nil => cases h
  | cons value values =>
    rw [inList, if_neg (by simp)] at h
    simp only [bind_eq_ok, pure_eq_ok] at h
    obtain ⟨body, hbody, rfl⟩ := h
    obtain ⟨texts, htexts, hall⟩ := equalities_writes hbody
    refine ⟨_, by rw [Condition.tree?, htexts, Option.map_some], Writes.negatedIf ?_ negated⟩
    refine (hall.or ?_).congr fun a => by simp
    intro hnil
    cases List.map_eq_nil_iff.mp hnil
    simp [List.mapM_cons, Option.bind_eq_some_iff] at htexts

theorem isNull_writes {negated : Bool} (h : isNull policy column negated = .ok s) :
    Writes [column.sourceName] s (.negatedIf (!negated) (.present column.sourceName)) := by
  simp only [isNull, bind_eq_ok, pure_eq_ok] at h
  obtain ⟨-, -, attr, hattr, rfl⟩ := h
  obtain ⟨rfl, hchars⟩ := attr_eq_ok hattr
  exact (Writes.item (i := .present column.sourceName) rfl trivial hchars).negatedIf _

end Leaf

/-! ### Whole conditions -/

section Fragment
variable {policy : UnsearchablePolicy}

theorem group_eq_ok {mark : Char} {conditions : List Condition} {s : List Char}
    (h : group policy mark conditions = .ok s) :
    conditions ≠ [] ∧ ∃ body, fragments policy conditions = .ok body ∧ s = '(' :: mark :: body ++ [')'] := by
  cases conditions with
  | nil => cases h
  | cons condition conditions =>
    simp only [group_cons, bind_eq_ok, pure_eq_ok] at h
    obtain ⟨body, hbody, rfl⟩ := h
    exact ⟨List.cons_ne_nil _ _, body, hbody, rfl⟩

theorem trees?_ne_nil {conditions : List Condition} {ts : List Filter} (h : Condition.trees? conditions = some ts)
    (hne : conditions ≠ []) : ts ≠ [] := by
  rintro rfl
  cases conditions with
  | nil => exact hne rfl
  | cons condition conditions => simp [Condition.trees?, Option.bind_eq_some_iff] at h

mutual

/-- A condition that can be written down is written as the text of the filter it stands for. -/
theorem fragment_writes : ∀ (c : Condition) {s : List Char}, fragment policy c = .ok s →
    ∃ t, c.tree? = some t ∧ Writes (c.columns.map Column.sourceName) s t
  | .comparison op column value, s, h => by
    obtain ⟨text, htext, hwrites⟩ := comparison_writes h
    exact ⟨_, by rw [Condition.tree?, htext, Option.map_some], hwrites⟩
  | .not condition, s, h => by
    simp only [fragment, bind_eq_ok, pure_eq_ok] at h
    obtain ⟨body, hbody, rfl⟩ := h
    obtain ⟨t, ht, hwrites⟩ := fragment_writes condition hbody
    exact ⟨_, by rw [Condition.tree?, ht, Option.map_some], hwrites.negation⟩
  | .and conditions, s, h => by
    obtain ⟨hne, body, hbody, rfl⟩ := group_eq_ok h
    obtain ⟨ts, hts, hall⟩ := fragments_writes conditions hbody
    exact ⟨_, by rw [Condition.tree?, hts, Option.map_some], hall.and (trees?_ne_nil hts hne)⟩
  | .or conditions, s, h => by
    obtain ⟨hne, body, hbody, rfl⟩ := group_eq_ok h
    obtain ⟨ts, hts, hall⟩ := fragments_writes conditions hbody
    exact ⟨_, by rw [Condition.tree?, hts, Option.map_some], hall.or (trees?_ne_nil hts hne)⟩
  | .like column pattern escape negated, s, h => like_writes h
  | .inList column values negated, s, h => inList_writes h
  | .isNull column negated, s, h => ⟨_, rfl, isNull_writes h⟩

theorem fragments_writes : ∀ (conditions : List Condition) {s : List Char}, fragments policy conditions = .ok s →
    ∃ ts, Condition.trees? conditions = some ts ∧
      WritesAll ((Condition.allColumns conditions).map Column.sourceName) s ts
  | [], s, h => by
    cases pure_eq_ok.mp h
    exact ⟨[], rfl, .nil⟩
  | condition :: conditions, s, h => by
    simp only [fragments, bind_eq_ok, pure_eq_ok] at h
    obtain ⟨first, hfirst, others, hothers, rfl⟩ := h
    obtain ⟨t, ht, hwrites⟩ := fragment_writes condition hfirst
    obtain ⟨ts, hts, hall⟩ := fragments_writes conditions hothers
    refine ⟨t :: ts, by simp [Condition.trees?, ht, hts], ?_⟩
    rw [Condition.allColumns, List.map_append]
    exact .cons hwrites hall

end

end Fragment

end Selection

/-! ### Conditions in normal form -/

namespace Condition

mutual

@[simp] theorem columns_normal : ∀ (c : Condition) (negate : Bool), (c.normal negate).columns = c.columns
  | .comparison .., _ => rfl
  | .not condition, negate => columns_normal condition !negate
  | .and conditions, negate => by
    cases negate <;> exact allColumns_normalAll conditions _
  | .or conditions, negate => by
    cases negate <;> exact allColumns_normalAll conditions _
  | .like .., _ => rfl
  | .inList .., _ => rfl
  | .isNull .., _ => rfl

theorem allColumns_normalAll : ∀ (conditions : List Condition) (negate : Bool),
    allColumns (normalAll negate conditions) = allColumns conditions
  | [], _ => rfl
  | condition :: conditions, negate => by
    rw [normalAll, allColumns, allColumns, columns_normal condition, allColumns_normalAll conditions]

end

end Condition

namespace Selection

theorem compile_writes {policy : UnsearchablePolicy} {c : Condition} {s : List Char}
    (h : compile policy (some c) = .ok s) :
    ∃ t, c.negationNormal.tree? = some t ∧ Writes (c.columns.map Column.sourceName) s t := by
  obtain ⟨t, ht, hwrites⟩ := fragment_writes c.negationNormal h
  exact ⟨t, ht, by rwa [Condition.negationNormal, Condition.columns_normal] at hwrites⟩

end Selection

end DirectorySearch
