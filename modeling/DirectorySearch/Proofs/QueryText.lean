import DirectorySearch.Proofs.FormRange
import DirectorySearch.Query.Decoding

/-! A query is read back from its JSON text, and the text of a query that was read from some text nests
    no deeper than that. -/

namespace DirectorySearch

open Json (Form Fits Slots)

/-! ### Doubles of a query -/

section EachDouble

variable (p : Double → Prop)

/-- A double in a literal has the property. -/
def Literal.EachDouble : Literal → Prop
  | .float x => p x
  | _ => True

def Expr.EachDouble : Expr → Prop
  | .column _ => True
  | .literal value => value.EachDouble p

mutual

def Condition.EachDouble : Condition → Prop
  | .comparison _ _ value => value.EachDouble p
  | .not condition => condition.EachDouble
  | .and conditions => EachDoubleAll conditions
  | .or conditions => EachDoubleAll conditions
  | .like _ _ _ _ => True
  | .inList _ values _ => ∀ value ∈ values, value.EachDouble p
  | .isNull _ _ => True

def Condition.EachDoubleAll : List Condition → Prop
  | [] => True
  | condition :: conditions => condition.EachDouble ∧ EachDoubleAll conditions

end

/-- All doubles in a query have the property. -/
structure Query.EachDouble (q : Query) : Prop where
  projection : ∀ expr ∈ q.projection, expr.EachDouble p
  selection : ∀ condition ∈ q.selection, condition.EachDouble p
  orderBy : ∀ items ∈ q.orderBy, ∀ item ∈ items, item.expr.EachDouble p

variable [DecidablePred p]

instance : DecidablePred (Literal.EachDouble p)
  | .float x => inferInstanceAs (Decidable (p x))
  | .null | .bool _ | .int _ | .string _ => .isTrue trivial

instance : DecidablePred (Expr.EachDouble p)
  | .column _ => .isTrue trivial
  | .literal value => inferInstanceAs (Decidable (value.EachDouble p))

mutual

def Condition.decideEachDouble : (condition : Condition) → Decidable (condition.EachDouble p)
  | .comparison _ _ value => inferInstanceAs (Decidable (value.EachDouble p))
  | .not condition => decideEachDouble condition
  | .and conditions => decideEachDoubleAll conditions
  | .or conditions => decideEachDoubleAll conditions
  | .like _ _ _ _ => .isTrue trivial
  | .inList _ values _ => inferInstanceAs (Decidable (∀ value ∈ values, value.EachDouble p))
  | .isNull _ _ => .isTrue trivial

def Condition.decideEachDoubleAll : (conditions : List Condition) → Decidable (EachDoubleAll p conditions)
  | [] => .isTrue trivial
  | condition :: conditions =>
    have := decideEachDouble condition
    have := decideEachDoubleAll conditions
    inferInstanceAs (Decidable (_ ∧ _))

end

instance : DecidablePred (Condition.EachDouble p) := Condition.decideEachDouble p

instance : DecidablePred (Query.EachDouble p) := fun q =>
  decidable_of_iff ((∀ expr ∈ q.projection, expr.EachDouble p) ∧ (∀ condition ∈ q.selection, condition.EachDouble p) ∧
      ∀ items ∈ q.orderBy, ∀ item ∈ items, item.expr.EachDouble p)
    ⟨fun h => ⟨h.1, h.2.1, h.2.2⟩, fun h => ⟨h.projection, h.selection, h.orderBy⟩⟩

end EachDouble

/-! ### Reading what was written -/

theorem join_map_some {α : Type} (o : Option α) : (o.map some).join = o := by
  cases o <;> rfl

theorem reads_optional_string {o : Option String} : ∀ s, o = some s →
    Form.string.Reads (.string s) s ∧ (Json.string s).draft ≠ .null :=
  fun s _ => ⟨Form.reads_string s, by simp [Json.draft]⟩

theorem Table.reads (t : Table) : Table.form.Reads t.toJson t := by
  have hwritten : Slots.Written Table.fields _ _ := .present (Form.reads_string t.name)
    (.optional (reads_optional_string (o := t.nameInSource))
      (.optional (reads_optional_string (o := t.objectClass)) .nil))
  rw [List.append_nil] at hwritten
  apply Form.reads_record (by decide) hwritten
  show some (Table.mk t.name (t.nameInSource.map some).join (t.objectClass.map some).join) = some t
  rw [join_map_some, join_map_some]

theorem Searchability.reads (s : Searchability) : Searchability.form.Reads (.string s.name) s := by
  apply Form.reads_name
  cases s <;> decide

theorem Comparator.reads (op : Comparator) : Comparator.form.Reads (.string op.name) op := by
  apply Form.reads_name
  cases op <;> decide

theorem Column.reads (c : Column) : Column.form.Reads c.toJson c := by
  have hwritten : Slots.Written Column.fields _ _ := .present (Form.reads_string c.name)
    (.optional (reads_optional_string (o := c.nameInSource)) (.present c.searchability.reads .nil))
  apply Form.reads_record (by decide) hwritten
  show some (Column.mk c.name (c.nameInSource.map some).join c.searchability) = some c
  rw [join_map_some]

theorem Literal.reads {l : Literal} (h : l.toJson.Plain Double.ReadsBack) : Literal.form.Reads l.toJson l := by
  apply Form.reads_ofBuffered h
  cases l with
  | int n => simp [Literal.toJson, Literal.ofJson?, Form.int64?_toInt]
  | _ => rfl

theorem Expr.reads {e : Expr} (h : e.toJson.Plain Double.ReadsBack) : Expr.form.Reads e.toJson e := by
  cases e with
  | column c =>
    apply Form.reads_tagged Expr.Kind.column (by decide) (by simp) h.2
    exact Json.content_named (by decide) (.present c.reads .nil) rfl
  | literal l =>
    apply Form.reads_tagged Expr.Kind.literal (by decide) (by simp) h.2
    exact Json.content_named (by decide) (.present (Literal.reads h.2.1) .nil) rfl

theorem SortItem.reads {item : SortItem} (h : item.toJson.Plain Double.ReadsBack) : SortItem.form.Reads item.toJson item := by
  have hwritten : Slots.Written SortItem.fields _ _ :=
    .present (Expr.reads h.1) (.present (Form.reads_bool item.descending) .nil)
  exact Form.reads_record (by decide) hwritten rfl

theorem Condition.toJsonAll_eq (conditions : List Condition) :
    Condition.toJsonAll conditions = conditions.map Condition.toJson := by
  induction conditions with
  | nil => rfl
  | cons condition conditions ih => rw [toJsonAll, ih, List.map_cons]

theorem Condition.reads_all {form : Form Condition} {conditions : List Condition}
    (h : ∀ condition ∈ conditions, form.Reads condition.toJson condition) :
    (Form.list form).Reads (.array (Condition.toJsonAll conditions)) conditions := by
  rw [toJsonAll_eq]
  exact Form.reads_list h

theorem Condition.not_fits_zero (condition : Condition) : ¬condition.toJson.Fits Double.ReadsBack 0 := by
  intro h
  cases condition <;> cases h.2

theorem Condition.fits_group {conditions : List Condition} {name : String} {n : Nat}
    (h : Fits Double.ReadsBack (n + 1) (.object [("type", .string name), ("conditions", .array (toJsonAll conditions))])) :
    ∀ condition ∈ conditions, condition.toJson.Fits Double.ReadsBack n := by
  intro condition hmem
  have hgroup : Fits Double.ReadsBack n (.array (toJsonAll conditions)) :=
    Json.fits_object.mp h ("conditions", _) (by simp)
  rw [toJsonAll_eq] at hgroup
  exact hgroup.mem_array _ (List.mem_map_of_mem hmem)

mutual

/-- A condition is read back by a form for conditions as deep as its text. -/
theorem Condition.reads : ∀ {condition : Condition} {depth : Nat}, condition.toJson.Fits Double.ReadsBack depth →
    (formWithin depth).Reads condition.toJson condition
  | condition, 0, h => absurd h condition.not_fits_zero
  | .comparison op column value, depth + 1, h => by
    apply Form.reads_tagged Kind.comparison (by decide) (by simp) h.1.2
    exact Json.content_named (by decide)
      (.present op.reads (.present column.reads (.present (Literal.reads h.1.2.2.2.1) .nil))) rfl
  | .not condition, depth + 1, h => by
    have hinner : condition.toJson.Fits Double.ReadsBack depth := Json.fits_object.mp h ("condition", _) (by simp)
    apply Form.reads_tagged Kind.not (by decide) (by simp) h.1.2
    exact Json.content_named (by simp) (.present (Condition.reads hinner) .nil) rfl
  | .and conditions, depth + 1, h => by
    apply Form.reads_tagged Kind.and (by decide) (by simp) h.1.2
    exact Json.content_named (by simp) (.present (reads_all (Condition.reads_each (fits_group h))) .nil) rfl
  | .or conditions, depth + 1, h => by
    apply Form.reads_tagged Kind.or (by decide) (by simp) h.1.2
    exact Json.content_named (by simp) (.present (reads_all (Condition.reads_each (fits_group h))) .nil) rfl
  | .like column pattern escape negated, depth + 1, h => by
    have hnames : ∀ m ∈ ("column", column.toJson) :: ("pattern", Json.string pattern) ::
        (Json.member? "escape" (escape.map fun c => .string (.singleton c)) ++
          [("negated", Json.bool negated)]), m.1 ≠ "type" := by
      cases escape <;> simp [Json.member?]
    apply Form.reads_tagged Kind.like (by decide) hnames h.1.2
    refine Json.content_named (by decide) (.present column.reads (.present (Form.reads_string pattern)
      (.optional (fun c _ => ⟨Form.reads_char c, by simp [Json.draft]⟩)
        (.present (Form.reads_bool negated) .nil)))) ?_
    show some (Condition.like column pattern (escape.map some).join negated) = _
    rw [join_map_some]
  | .inList column values negated, depth + 1, h => by
    have hvalues : ∀ l ∈ values, Literal.form.Reads l.toJson l := by
      intro l hl
      have harray : Fits Double.ReadsBack depth (.array (values.map Literal.toJson)) :=
        Json.fits_object.mp h ("values", _) (by simp)
      exact Literal.reads (harray.mem_array _ (List.mem_map_of_mem hl)).1
    apply Form.reads_tagged Kind.inList (by decide) (by simp) h.1.2
    exact Json.content_named (by decide) (.present column.reads
      (.present (Form.reads_list hvalues) (.present (Form.reads_bool negated) .nil))) rfl
  | .isNull column negated, depth + 1, h => by
    apply Form.reads_tagged Kind.isNull (by decide) (by simp) h.1.2
    exact Json.content_named (by decide)
      (.present column.reads (.present (Form.reads_bool negated) .nil)) rfl

theorem Condition.reads_each : ∀ {conditions : List Condition} {depth : Nat},
    (∀ condition ∈ conditions, condition.toJson.Fits Double.ReadsBack depth) →
    ∀ condition ∈ conditions, (formWithin depth).Reads condition.toJson condition
  | [], _, _ => by simp
  | condition :: conditions, depth, h => by
    rw [List.forall_mem_cons] at h ⊢
    exact ⟨Condition.reads h.1, Condition.reads_each h.2⟩

end

theorem Query.toJson_eq (q : Query) :
    q.toJson = .object (("from", .array (q.tables.map Table.toJson)) ::
      ("projection", .array (q.projection.map Expr.toJson)) ::
      (Json.member? "selection" (q.selection.map Condition.toJson) ++
        (Json.member? "order_by" (q.orderBy.map fun items => .array (items.map SortItem.toJson)) ++
          (Json.member? "limit" (q.limit.map fun n => .int n.toInt) ++ [])))) := by
  simp [toJson]

theorem Query.fits_iff {p : Double → Prop} {q : Query} {n : Nat} :
    q.toJson.Fits p (n + 1) ↔ Fits p n (.array (q.tables.map Table.toJson)) ∧
      Fits p n (.array (q.projection.map Expr.toJson)) ∧
      (∀ condition, q.selection = some condition → condition.toJson.Fits p n) ∧
      ∀ items, q.orderBy = some items → Fits p n (.array (items.map SortItem.toJson)) := by
  have hlimit : ∀ k, q.limit = some k → Fits p n (.int k.toInt) := fun k _ => Json.fits_int (Form.inRange_toInt k)
  rw [toJson_eq, Json.fits_object]
  simp only [List.forall_mem_cons, List.forall_mem_append, Json.forall_mem_member?, List.not_mem_nil,
    false_imp_iff, implies_true, and_true]
  constructor
  · rintro ⟨htables, hprojection, hselection, horder, -⟩
    exact ⟨htables, hprojection, hselection, horder⟩
  · rintro ⟨htables, hprojection, hselection, horder⟩
    exact ⟨htables, hprojection, hselection, horder, hlimit⟩

theorem Condition.draft_ne_null (condition : Condition) : condition.toJson.draft ≠ .null := by
  cases condition <;> simp [toJson, Json.draft]

/-- A query is read back from its JSON form, given room for it. -/
theorem Query.reads {q : Query} (h : q.toJson.Fits Double.ReadsBack Json.maxDepth) : Query.form.Reads q.toJson q := by
  obtain ⟨-, hprojection, hselection, horder⟩ := Query.fits_iff.mp h
  have htables : (Form.list Table.form).Reads (.array (q.tables.map Table.toJson)) q.tables :=
    Form.reads_list fun t _ => t.reads
  have hprojection : (Form.list Expr.form).Reads (.array (q.projection.map Expr.toJson)) q.projection :=
    Form.reads_list fun e he => Expr.reads (hprojection.mem_array _ (List.mem_map_of_mem he)).1
  have hselection : ∀ c, q.selection = some c → Condition.form.Reads c.toJson c ∧ c.toJson.draft ≠ .null :=
    fun c hc => ⟨Condition.reads ((hselection c hc).mono (by decide)), c.draft_ne_null⟩
  have horder : ∀ items, q.orderBy = some items →
      (Form.list SortItem.form).Reads (.array (items.map SortItem.toJson)) items ∧
        (Json.array (items.map SortItem.toJson)).draft ≠ .null := fun items hitems =>
    ⟨Form.reads_list fun item hitem =>
      SortItem.reads ((horder items hitems).mem_array _ (List.mem_map_of_mem hitem)).1, by simp [Json.draft]⟩
  have hlimit : ∀ k, q.limit = some k → Form.int64.Reads (.int k.toInt) k ∧ (Json.int k.toInt).draft ≠ .null :=
    fun k _ => ⟨Form.reads_int64 k, by simp [Json.draft]⟩
  rw [toJson_eq]
  refine Form.reads_record (by decide) (.present htables (.present hprojection
    (.optional hselection (.optional horder (.optional hlimit .nil))))) ?_
  show some (Query.mk q.tables q.projection (q.selection.map some).join (q.orderBy.map some).join
    (q.limit.map some).join) = some q
  rw [join_map_some, join_map_some, join_map_some]

/-! ### Writing what was read -/

theorem Table.fits {p : Double → Prop} (t : Table) (n : Nat) : t.toJson.Fits p (n + 1) := by
  rw [toJson, Json.fits_object]
  simp only [List.forall_mem_cons, List.forall_mem_append, Json.forall_mem_member?]
  exact ⟨Json.fits_string, fun _ _ => Json.fits_string, fun _ _ => Json.fits_string⟩

theorem Column.fits {p : Double → Prop} (c : Column) (n : Nat) : c.toJson.Fits p (n + 1) := by
  rw [toJson, Json.fits_object]
  simp only [List.forall_mem_cons, List.forall_mem_append, Json.forall_mem_member?]
  exact ⟨Json.fits_string, fun _ _ => Json.fits_string, Json.fits_string, by simp⟩

theorem Table.fits_of_yields {t : Table} {n : Nat} (h : Table.form.Yields n t) : t.toJson.Fits Double.Finite n := by
  obtain ⟨m, slots, rfl, -, -⟩ := h.record
  exact t.fits m

theorem Column.fits_of_yields {c : Column} {n : Nat} (h : Column.form.Yields n c) : c.toJson.Fits Double.Finite n := by
  obtain ⟨m, slots, rfl, -, -⟩ := h.record
  exact c.fits m

theorem Literal.fits_of_yields {l : Literal} {n : Nat} (h : Literal.form.Yields n l) : l.toJson.Fits Double.Finite n := by
  obtain ⟨v, hv, hread⟩ := h.ofBuffered
  unfold ofJson? at hread
  split at hread
  · cases hread
    exact hv
  · cases hread
    exact hv
  · split at hread
    · cases hread
      exact Json.fits_int (Form.inRange_toInt _)
    · obtain ⟨x, -, rfl⟩ := Option.map_eq_some_iff.mp hread
      exact Json.fits_float ⟨x, rfl⟩
  · cases hread
    exact hv
  · cases hread
    exact hv
  · cases hread
  · cases hread

theorem Expr.fits_of_yields {e : Expr} {n : Nat} (h : Expr.form.Yields n e) : e.toJson.Fits Double.Finite n := by
  obtain ⟨m, kind, content, rfl, hcontent, hread⟩ := h.tagged
  cases kind with
  | column =>
    obtain ⟨⟨column, _⟩, hslots, hmake⟩ := content.yields_read hcontent hread
    obtain ⟨c, rfl, hpure⟩ := Option.bind_eq_some_iff.mp hmake
    cases hpure
    have hc := Column.fits_of_yields (hslots.1 c rfl)
    simpa [toJson, Json.fits_object] using ⟨Json.fits_string, hc⟩
  | literal =>
    obtain ⟨⟨value, _⟩, hslots, hmake⟩ := content.yields_read hcontent hread
    obtain ⟨l, rfl, hpure⟩ := Option.bind_eq_some_iff.mp hmake
    cases hpure
    have hl := Literal.fits_of_yields (hslots.1 l rfl)
    simpa [toJson, Json.fits_object] using ⟨Json.fits_string, hl⟩

theorem SortItem.fits_of_yields {item : SortItem} {n : Nat} (h : SortItem.form.Yields n item) :
    item.toJson.Fits Double.Finite n := by
  obtain ⟨m, ⟨expr, descending, _⟩, rfl, hslots, hmake⟩ := h.record
  obtain ⟨e, rfl, hpure⟩ := Option.bind_eq_some_iff.mp hmake
  cases hpure
  have he := Expr.fits_of_yields (hslots.1 e rfl)
  simpa [toJson, Json.fits_object] using ⟨he, Json.fits_bool⟩

theorem fits_list_of_yields {α : Type} {form : Form α} {enc : α → Json} {as : List α} {n : Nat}
    (hparts : ∀ {m : Nat} {a : α}, form.Yields m a → (enc a).Fits Double.Finite m) (h : (Form.list form).Yields n as) :
    Fits Double.Finite n (.array (as.map enc)) := by
  obtain ⟨m, rfl, has⟩ := h.list
  rw [Json.fits_array]
  intro v hv
  obtain ⟨a, ha, rfl⟩ := List.mem_map.mp hv
  exact hparts (has a ha)

theorem Condition.fits_of_yields {depth : Nat} : ∀ {condition : Condition} {n : Nat},
    (formWithin depth).Yields n condition → condition.toJson.Fits Double.Finite n := by
  induction depth with
  | zero =>
    intro condition n h
    obtain ⟨v, -, hread⟩ := h.ofBuffered
    cases hread
  | succ depth ih =>
    intro condition n h
    obtain ⟨m, kind, content, rfl, hcontent, hread⟩ := h.tagged
    cases kind with
    | comparison =>
      obtain ⟨⟨op, column, value, _⟩, ⟨-, hcolumn, hvalue, -⟩, hmake⟩ := content.yields_read hcontent hread
      obtain ⟨op, rfl, hbind⟩ := Option.bind_eq_some_iff.mp hmake
      obtain ⟨column, rfl, hrest⟩ := Option.bind_eq_some_iff.mp hbind
      obtain ⟨value, rfl, hpure⟩ := Option.bind_eq_some_iff.mp hrest
      cases hpure
      have hcolumn := Column.fits_of_yields (hcolumn column rfl)
      have hvalue := Literal.fits_of_yields (hvalue value rfl)
      simpa [toJson, Json.fits_object] using ⟨Json.fits_string, Json.fits_string, hcolumn, hvalue⟩
    | not =>
      obtain ⟨⟨inner, _⟩, ⟨hinner, -⟩, hmake⟩ := content.yields_read hcontent hread
      obtain ⟨inner, rfl, hpure⟩ := Option.bind_eq_some_iff.mp hmake
      cases hpure
      simpa [toJson, Json.fits_object] using ⟨Json.fits_string, ih (hinner inner rfl)⟩
    | and | or =>
      obtain ⟨⟨conditions, _⟩, ⟨hconditions, -⟩, hmake⟩ := content.yields_read hcontent hread
      obtain ⟨conditions, rfl, hpure⟩ := Option.bind_eq_some_iff.mp hmake
      cases hpure
      have hconditions := fits_list_of_yields ih (hconditions conditions rfl)
      simpa [toJson, toJsonAll_eq, Json.fits_object] using ⟨Json.fits_string, hconditions⟩
    | like =>
      obtain ⟨⟨column, pattern, escape, negated, _⟩, ⟨hcolumn, -⟩, hmake⟩ :=
        content.yields_read hcontent hread
      obtain ⟨column, rfl, hbind⟩ := Option.bind_eq_some_iff.mp hmake
      obtain ⟨pattern, rfl, hpure⟩ := Option.bind_eq_some_iff.mp hbind
      cases hpure
      have hcolumn := Column.fits_of_yields (hcolumn column rfl)
      rw [toJson, Json.fits_object]
      simp only [List.forall_mem_cons, List.forall_mem_append, Json.forall_mem_member?]
      exact ⟨⟨⟨Json.fits_string, hcolumn, Json.fits_string, by simp⟩, fun _ _ => Json.fits_string⟩,
        Json.fits_bool, by simp⟩
    | inList =>
      obtain ⟨⟨column, values, negated, _⟩, ⟨hcolumn, hvalues, -⟩, hmake⟩ :=
        content.yields_read hcontent hread
      obtain ⟨column, rfl, hbind⟩ := Option.bind_eq_some_iff.mp hmake
      obtain ⟨values, rfl, hpure⟩ := Option.bind_eq_some_iff.mp hbind
      cases hpure
      have hcolumn := Column.fits_of_yields (hcolumn column rfl)
      have hvalues := fits_list_of_yields Literal.fits_of_yields (hvalues values rfl)
      simpa [toJson, Json.fits_object] using ⟨Json.fits_string, hcolumn, hvalues, Json.fits_bool⟩
    | isNull =>
      obtain ⟨⟨column, negated, _⟩, ⟨hcolumn, -⟩, hmake⟩ := content.yields_read hcontent hread
      obtain ⟨column, rfl, hpure⟩ := Option.bind_eq_some_iff.mp hmake
      cases hpure
      have hcolumn := Column.fits_of_yields (hcolumn column rfl)
      simpa [toJson, Json.fits_object] using ⟨Json.fits_string, hcolumn, Json.fits_bool⟩

theorem Query.fits_of_yields {q : Query} {n : Nat} (h : Query.form.Yields n q) : q.toJson.Fits Double.Finite n := by
  obtain ⟨m, ⟨tables, projection, selection, orderBy, limit, _⟩, rfl, hslots, hmake⟩ := h.record
  obtain ⟨htables, hprojection, hselection, horder, -⟩ := hslots
  obtain ⟨tables, rfl, hpure⟩ := Option.bind_eq_some_iff.mp hmake
  cases hpure
  have htables := fits_list_of_yields Table.fits_of_yields (htables tables rfl)
  rw [Query.fits_iff]
  refine ⟨htables, ?_, fun c hc => ?_, fun items hitems => ?_⟩
  · cases projection with
    | some exprs => exact fits_list_of_yields Expr.fits_of_yields (hprojection exprs rfl)
    | none =>
      -- An empty list is written for none, and the list of tables has room for it.
      obtain ⟨k, rfl, -⟩ := htables.array
      exact Json.fits_array.mpr (by simp)
  · have hyields := hselection (some c) (Option.join_eq_some_iff.mp hc)
    exact Condition.fits_of_yields (hyields.optional rfl)
  · have hyields := horder (some items) (Option.join_eq_some_iff.mp hitems)
    exact fits_list_of_yields SortItem.fits_of_yields (hyields.optional rfl)

/-! ### Doubles of the JSON form -/

section EachDouble

variable {p : Double → Prop}

theorem Literal.plain {l : Literal} (h : l.EachDouble p) : l.toJson.Plain p := by
  cases l with
  | int n => exact Form.inRange_toInt n
  | float x => exact h
  | _ => trivial

theorem Expr.plain {e : Expr} (h : e.EachDouble p) : e.toJson.Plain p := by
  cases e with
  | column c => exact ⟨trivial, (c.fits 0).1, trivial⟩
  | literal l => exact ⟨trivial, Literal.plain h, trivial⟩

mutual

theorem Condition.plain : ∀ condition : Condition, condition.EachDouble p → condition.toJson.Plain p
  | .comparison _ column _, h => ⟨trivial, trivial, (column.fits 0).1, Literal.plain h, trivial⟩
  | .not condition, h => ⟨trivial, Condition.plain condition h, trivial⟩
  | .and conditions, h => ⟨trivial, Condition.plain_all conditions h, trivial⟩
  | .or conditions, h => ⟨trivial, Condition.plain_all conditions h, trivial⟩
  | .like column _ _ _, _ => by
    rw [toJson, Json.Plain, Json.plainMembers_iff]
    simp only [List.forall_mem_cons, List.forall_mem_append, Json.forall_mem_member?]
    exact ⟨⟨⟨trivial, (column.fits 0).1, trivial, by simp⟩, fun _ _ => trivial⟩, trivial, by simp⟩
  | .inList column values _, h => by
    have hvalues : Json.PlainItems p (values.map Literal.toJson) := by
      rw [Json.plainItems_iff]
      intro v hv
      obtain ⟨l, hl, rfl⟩ := List.mem_map.mp hv
      exact Literal.plain (h l hl)
    exact ⟨trivial, (column.fits 0).1, hvalues, trivial, trivial⟩
  | .isNull column _, _ => ⟨trivial, (column.fits 0).1, trivial, trivial⟩

theorem Condition.plain_all : ∀ conditions : List Condition, EachDoubleAll p conditions →
    Json.PlainItems p (toJsonAll conditions)
  | [], _ => trivial
  | condition :: conditions, h => ⟨Condition.plain condition h.1, Condition.plain_all conditions h.2⟩

end

theorem Query.plain {q : Query} (h : q.EachDouble p) : q.toJson.Plain p := by
  rw [toJson_eq, Json.Plain, Json.plainMembers_iff]
  simp only [List.forall_mem_cons, List.forall_mem_append, Json.forall_mem_member?, Json.Plain,
    Json.plainItems_iff, List.forall_mem_map]
  exact ⟨fun t _ => (t.fits 0).1, fun e he => Expr.plain (h.projection e he),
    fun c hc => Condition.plain c (h.selection c hc),
    fun items hitems item hitem => ⟨Expr.plain (h.orderBy items hitems item hitem), trivial, trivial⟩,
    fun n _ => Form.inRange_toInt n, by simp⟩

end EachDouble

/-! ### Texts of queries -/

namespace Query

theorem toList_render (q : Query) : q.render.toList = Json.chars .compact 0 q.toJson :=
  String.toList_ofList

theorem nesting_render (q : Query) : Json.nesting q.render.toList = q.toJson.depth := by
  rw [toList_render, Json.nesting_chars]

theorem parse_of_fits {q : Query} (h : q.toJson.Fits Double.ReadsBack Json.maxDepth) : parse q.render = .ok q :=
  (reads h).read h.2

theorem fits_of_parse {t : String} {q : Query} (h : parse t = .ok q) :
    q.toJson.Fits Double.Finite Json.maxDepth ∧ q.toJson.Fits Double.Finite (Json.nesting t.toList) := by
  obtain ⟨hroom, htext⟩ := Form.yields_of_read h
  exact ⟨fits_of_yields hroom, fits_of_yields htext⟩

/-- Queries are told apart by their texts, so a text is read as the query that has the text of what it was read as. -/
theorem parse_eq_of_render {t : String} {q : Query}
    (h : ∃ r ∈ (parse t).toOption, r.render = q.render ∧ r.EachDouble Double.ReadsBack)
    (hback : q.EachDouble Double.ReadsBack) (hdepth : q.toJson.depth ≤ Json.maxDepth) : parse t = .ok q := by
  obtain ⟨r, hr, hrender, hrback⟩ := h
  have hparse : parse t = .ok r := toOption_eq_some.mp hr
  have hrdepth : r.toJson.depth ≤ Json.maxDepth := (fits_of_parse hparse).1.2
  have hagain : parse r.render = .ok q := by
    rw [hrender]
    exact parse_of_fits ⟨plain hback, hdepth⟩
  rw [hparse, ← parse_of_fits ⟨plain hrback, hrdepth⟩, hagain]

/-- The text of a query nests no deeper than any text that it was read from. Provided that each finite double in the
    query is read back from its own text, a query with finite doubles only, whose text nests no deeper than can be
    read, is read back from its text; and a query that was read from some text is the same, with the same fingerprint,
    once it is written and read again. -/
theorem text_faithful (q : Query) :
    (∀ t, parse t = .ok q → Json.nesting q.render.toList ≤ Json.nesting t.toList) ∧
    ((q.EachDouble fun x => x.Finite → x.ReadsBack) →
      (q.EachDouble Double.Finite → Json.nesting q.render.toList ≤ Json.maxDepth → parse q.render = .ok q) ∧
      ∀ t, parse t = .ok q → parse q.render = .ok q ∧ (parse q.render).map fingerprint = .ok q.fingerprint) := by
  refine ⟨fun t hparse => ?_, fun hback => ?_⟩
  · rw [nesting_render]
    exact (fits_of_parse hparse).2.2
  have hagain (hfinite : q.toJson.Plain Double.Finite) (hdepth : q.toJson.depth ≤ Json.maxDepth) :
      parse q.render = .ok q :=
    parse_of_fits ⟨hfinite.mp (fun x hx h => h hx) (plain hback), hdepth⟩
  refine ⟨fun hfinite hnesting => ?_, fun t hparse => ?_⟩
  · rw [nesting_render] at hnesting
    exact hagain (plain hfinite) hnesting
  · obtain ⟨hfinite, hdepth⟩ := (fits_of_parse hparse).1
    have hsame := hagain hfinite hdepth
    exact ⟨hsame, by rw [hsame]; rfl⟩

/-- One as a whole number and as a double, negative zero, a control character and a quote as escape are
    read back. The text has a member that is passed over, arrays for records, and a whole number past
    sixty-four bits. -/
theorem text_faithful_mixed :
    let one : Double := .finite ⟨false, 2 ^ 52, 1022, by decide, by decide, by decide⟩
    let q : Query := ⟨[⟨"people", none, none⟩],
      [.literal (.int 1), .literal (.float (.finite (.zero true))), .literal (.float one)],
      some (.not (.like ⟨"cn", some "", .likeOnly⟩ "\x01%" (some '"') true)), some [], some 10⟩
    let t := "[[[\"people\"]], [], \x7b\"type\": \"Not\", \"more\": [[[]]], \"condition\": " ++
      "[\"In\", [\"cn\"], [1, 1.0, 18446744073709551616]]\x7d]"
    let r : Query := ⟨[⟨"people", none, none⟩], [],
      some (.not (.inList ⟨"cn", none, .searchable⟩ [.int 1, .float one,
        .float (.finite ⟨false, 2 ^ 52, 1086, by decide, by decide, by decide⟩)] false)), none, none⟩
    ((q.EachDouble fun x => x.Finite → x.ReadsBack) ∧ q.EachDouble Double.Finite ∧
      Json.nesting q.render.toList ≤ Json.maxDepth ∧ parse q.render = .ok q) ∧
    (r.EachDouble fun x => x.Finite → x.ReadsBack) ∧ parse t = .ok r ∧
      Json.nesting r.render.toList ≤ Json.nesting t.toList ∧ parse r.render = .ok r := by
  intro one q t r
  have hone : one.ReadsBack := Json.readsBack_of_exact (by decide +kernel)
  have hzero : Double.ReadsBack (.finite (.zero true)) := Json.readsBack_of_exact (by decide +kernel)
  have hq : q.EachDouble fun x => x.Finite → x.ReadsBack := by
    refine ⟨?_, by rintro _ ⟨⟩; trivial, by rintro _ ⟨⟩; simp⟩
    rw [List.forall_mem_cons, List.forall_mem_cons, List.forall_mem_singleton]
    exact ⟨trivial, fun _ => hzero, fun _ => hone⟩
  have hfinite : q.EachDouble Double.Finite := by decide
  have hnesting : Json.nesting q.render.toList ≤ Json.maxDepth := by
    rw [nesting_render]
    decide
  have hr : r.EachDouble fun x => x.Finite → x.ReadsBack := by decide +kernel
  have hparse : parse t = .ok r := parse_eq_of_render (by decide +kernel) (by decide +kernel) (by decide)
  exact ⟨⟨hq, hfinite, hnesting, ((text_faithful q).2 hq).1 hfinite hnesting⟩, hr, hparse,
    (text_faithful r).1 t hparse, (((text_faithful r).2 hr).2 t hparse).1⟩

end Query

end DirectorySearch
