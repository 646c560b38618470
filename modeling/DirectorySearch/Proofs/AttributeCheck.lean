import DirectorySearch.Proofs.Request

/-! The check of a column's attribute, and the grammar. The check asks for the characters of attribute
    descriptions and no more; the grammar also asks where dots and semicolons stand. So the check passes every
    description, and texts beside them that make a filter which cannot be read. -/

namespace DirectorySearch

namespace Token

/-! ### Texts between separators -/

section SplitOn
variable {separator : Char} {p : Char → Bool}

theorem not_mem_of_mem_splitOn {s w : List Char} (h : w ∈ s.splitOn separator) : separator ∉ w := by
  by_cases hs : separator ∈ s
  · obtain ⟨first, rest, hparts, hfirst⟩ := List.eq_append_cons_of_mem hs
    rw [hparts, List.splitOn_append_cons_self_of_not_mem hfirst] at h
    rcases List.mem_cons.mp h with rfl | h
    · exact hfirst
    · exact not_mem_of_mem_splitOn h
  · rw [List.splitOn_eq_singleton hs, List.mem_singleton] at h
    rwa [h]
termination_by s.length
decreasing_by
  rw [hparts, List.length_append, List.length_cons]
  omega

theorem intercalate_cons (w : List Char) (words : List (List Char)) :
    [separator].intercalate (w :: words) = w ++ words.flatMap (separator :: ·) := by
  induction words generalizing w with
  | nil => rw [List.intercalate_singleton, List.flatMap_nil, List.append_nil]
  | cons next words ih =>
    rw [List.intercalate_cons_cons, ih, List.flatMap_cons]
    simp

/-- A text is split where its separators are. -/
theorem splitOn_eq_cons {s w : List Char} {words : List (List Char)} :
    s.splitOn separator = w :: words ↔
      s = w ++ words.flatMap (separator :: ·) ∧ ∀ v ∈ w :: words, separator ∉ v := by
  rw [← intercalate_cons]
  constructor
  · intro h
    refine ⟨?_, fun v hv => not_mem_of_mem_splitOn (h ▸ hv)⟩
    rw [← h, List.intercalate_splitOn]
  · rintro ⟨rfl, h⟩
    exact List.splitOn_intercalate separator h (List.cons_ne_nil _ _)

theorem items_iff {s : List Char} : Items separator p s ↔
    ∃ words : List (List Char), s = words.flatMap (separator :: ·) ∧ ∀ w ∈ words, w ≠ [] ∧ ∀ c ∈ w, p c = true := by
  constructor
  · intro h
    induction h with
    | nil => exact ⟨[], rfl, by simp⟩
    | @cons c w r hc hw _ ih =>
      obtain ⟨words, rfl, hwords⟩ := ih
      refine ⟨(c :: w) :: words, by simp, List.forall_mem_cons.mpr ⟨⟨List.cons_ne_nil _ _, ?_⟩, hwords⟩⟩
      exact List.forall_mem_cons.mpr ⟨hc, hw⟩
  · rintro ⟨words, rfl, hwords⟩
    induction words with
    | nil => exact .nil
    | cons word words ih =>
      obtain ⟨⟨hne, hword⟩, hothers⟩ := List.forall_mem_cons.mp hwords
      obtain ⟨c, w, rfl⟩ := List.exists_cons_of_ne_nil hne
      obtain ⟨hc, hw⟩ := List.forall_mem_cons.mp hword
      exact .cons hc hw (ih hothers)

theorem not_mem_of_all (hsep : p separator = false) {w : List Char} (hw : ∀ c ∈ w, p c = true) : separator ∉ w := by
  intro hmem
  rw [hw separator hmem] at hsep
  cases hsep

end SplitOn

/-! ### Dots and semicolons -/

/-- A name, as far as dots and the first character tell. -/
def NameLike (base : List Char) : Prop :=
  (∃ c w, base = c :: w ∧ c.isAlpha = true) ∧ '.' ∉ base

/-- Numbers with a dot between each two. -/
def Dotted (base : List Char) : Prop :=
  '.' ∈ base ∧ ∀ number ∈ base.splitOn '.', number ≠ [] ∧ ∀ c ∈ number, c.isDigit = true

/-- Dots and semicolons stand where descriptions have them: behind each semicolon is something and no dot, and
    in front of all is a name without a dot, or numbers. -/
def Separated (s : List Char) : Prop :=
  ∃ base options, s.splitOn ';' = base :: options ∧ (NameLike base ∨ Dotted base) ∧
    ∀ option ∈ options, option ≠ [] ∧ '.' ∉ option

theorem numericId_iff {base : List Char} : NumericId base ↔ Dotted base := by
  constructor
  · rintro ⟨c, w, dotted, rfl, hc, hw, hdotted, hne⟩
    obtain ⟨numbers, rfl, hnumbers⟩ := items_iff.mp hdotted
    have hall : ∀ number ∈ (c :: w) :: numbers, number ≠ [] ∧ ∀ d ∈ number, d.isDigit = true :=
      List.forall_mem_cons.mpr ⟨⟨List.cons_ne_nil c w, List.forall_mem_cons.mpr ⟨hc, hw⟩⟩, hnumbers⟩
    have hsplit : (c :: (w ++ numbers.flatMap ('.' :: ·))).splitOn '.' = (c :: w) :: numbers :=
      splitOn_eq_cons.mpr ⟨rfl, fun number hnumber => not_mem_of_all (by decide) (hall number hnumber).2⟩
    have hdot : '.' ∈ numbers.flatMap ('.' :: ·) := List.contains_iff_mem.mp ((items_contains hdotted).mpr hne)
    exact ⟨List.mem_cons_of_mem c (List.mem_append_right w hdot), by rwa [hsplit]⟩
  · rintro ⟨hdot, hall⟩
    obtain ⟨first, numbers, hsplit⟩ := List.exists_cons_of_ne_nil (List.splitOn_ne_nil '.' base)
    rw [hsplit] at hall
    obtain ⟨⟨hne, hfirst⟩, hnumbers⟩ := List.forall_mem_cons.mp hall
    obtain ⟨rfl, hdots⟩ := splitOn_eq_cons.mp hsplit
    obtain ⟨c, w, rfl⟩ := List.exists_cons_of_ne_nil hne
    obtain ⟨hc, hw⟩ := List.forall_mem_cons.mp hfirst
    refine ⟨c, w, numbers.flatMap ('.' :: ·), rfl, hc, hw, items_iff.mpr ⟨numbers, rfl, hnumbers⟩, fun hnil => ?_⟩
    rw [hnil, List.append_nil] at hdot
    exact hdots _ List.mem_cons_self hdot

theorem semicolon_not_mem {base : List Char} (h : Name base ∨ NumericId base) : ';' ∉ base := by
  rcases h with ⟨c, w, rfl, hc, hw⟩ | ⟨c, w, dotted, rfl, hc, hw, hdotted, -⟩
  · exact not_mem_of_all (by decide) (List.forall_mem_cons.mpr ⟨isKeyChar_of_isAlpha hc, hw⟩)
  · have hfirst : ';' ∉ c :: w := not_mem_of_all (by decide) (List.forall_mem_cons.mpr ⟨hc, hw⟩)
    have hothers : ';' ∉ dotted := by
      intro hmem
      rcases hdotted.mem hmem with hdigit | hdot
      · exact absurd hdigit (by decide)
      · exact absurd hdot (by decide)
    rw [← List.cons_append, List.mem_append, not_or]
    exact ⟨hfirst, hothers⟩

theorem AttributeChars.keys {w : List Char} (h : AttributeChars w) (hdot : '.' ∉ w) (hsemicolon : ';' ∉ w) :
    ∀ c ∈ w, isKeyChar c = true := by
  intro c hc
  rcases h c hc with hkey | rfl | rfl
  · exact hkey
  · exact absurd hc hdot
  · exact absurd hc hsemicolon

/-- Without a semicolon, only dots and the first character tell whether the right characters are a name. -/
theorem name_iff {base : List Char} (hbase : AttributeChars base) (hsemicolon : ';' ∉ base) :
    Name base ↔ NameLike base := by
  constructor
  · rintro ⟨c, w, rfl, hc, hw⟩
    exact ⟨⟨c, w, rfl, hc⟩, not_mem_of_all (by decide) (List.forall_mem_cons.mpr ⟨isKeyChar_of_isAlpha hc, hw⟩)⟩
  · rintro ⟨⟨c, w, rfl, hc⟩, hdot⟩
    exact ⟨c, w, rfl, hc, (List.forall_mem_cons.mp (hbase.keys hdot hsemicolon)).2⟩

/-- Among the texts of the right characters, descriptions are those with dots and semicolons where they belong. -/
theorem attribute_iff_separated {s : List Char} (hs : AttributeChars s) : Attribute s ↔ Separated s := by
  constructor
  · rintro ⟨base, _, rfl, hbase, hitems⟩
    obtain ⟨options, rfl, hoptions⟩ := items_iff.mp hitems
    have hchars : AttributeChars base := fun c hc => hs c (List.mem_append_left _ hc)
    have hsemicolon : ';' ∉ base := semicolon_not_mem hbase
    have hsemicolons : ∀ option ∈ options, ';' ∉ option :=
      fun option hoption => not_mem_of_all (by decide) (hoptions option hoption).2
    refine ⟨base, options, splitOn_eq_cons.mpr ⟨rfl, List.forall_mem_cons.mpr ⟨hsemicolon, hsemicolons⟩⟩, ?_, ?_⟩
    · rwa [← name_iff hchars hsemicolon, ← numericId_iff]
    · exact fun option hoption => ⟨(hoptions option hoption).1, not_mem_of_all (by decide) (hoptions option hoption).2⟩
  · rintro ⟨base, options, hsplit, hbase, hoptions⟩
    obtain ⟨rfl, hsemicolons⟩ := splitOn_eq_cons.mp hsplit
    obtain ⟨hsemicolon, hsemicolons⟩ := List.forall_mem_cons.mp hsemicolons
    have hchars : AttributeChars base := fun c hc => hs c (List.mem_append_left _ hc)
    have hoption (option : List Char) (h : option ∈ options) : AttributeChars option := fun c hc =>
      hs c (List.mem_append_right base (List.mem_flatMap.mpr ⟨option, h, List.mem_cons_of_mem ';' hc⟩))
    refine ⟨base, _, rfl, ?_, items_iff.mpr ⟨options, rfl, fun option h => ⟨(hoptions option h).1, ?_⟩⟩⟩
    · rwa [name_iff hchars hsemicolon, numericId_iff]
    · exact (hoption option h).keys (hoptions option h).2 (hsemicolons option h)

end Token

open Token

namespace Column

theorem attr_eq_ok_iff (column : Column) :
    column.attr = .ok column.sourceName ↔ column.sourceName ≠ "" ∧ AttributeChars column.sourceName.toList := by
  have hcheck : (!column.sourceName.isEmpty && column.sourceName.toList.all isAttributeChar) = true ↔
      column.sourceName ≠ "" ∧ AttributeChars column.sourceName.toList := by
    simp [isAttributeChar, AttributeChars, isKeyChar, or_assoc]
  rw [attr, ← hcheck]
  split
  · next hpassed => exact iff_of_true rfl hpassed
  · next hfailed => exact iff_of_false (by rintro ⟨⟩) hfailed

theorem exists_attr_iff (column : Column) :
    (∃ attr, column.attr = .ok attr) ↔ column.sourceName ≠ "" ∧ AttributeChars column.sourceName.toList := by
  rw [← attr_eq_ok_iff]
  constructor
  · rintro ⟨attr, h⟩
    obtain ⟨rfl, -⟩ := Selection.attr_eq_ok h
    exact h
  · exact fun h => ⟨_, h⟩

theorem attr_of_attribute {column : Column} (h : Attribute column.sourceName.toList) :
    column.attr = .ok column.sourceName := by
  refine column.attr_eq_ok_iff.mpr ⟨fun hempty => ?_, h.chars⟩
  rw [hempty] at h
  exact absurd h (by decide)

/-- The check of a column and the grammar agree unless the right characters stand in the wrong places. -/
theorem attr_agrees_iff (column : Column) :
    ((∃ attr, column.attr = .ok attr) ↔ Attribute column.sourceName.toList) ↔
      ((∃ attr, column.attr = .ok attr) → Separated column.sourceName.toList) := by
  constructor
  · intro hagree hpassed
    have hattribute := hagree.mp hpassed
    exact (attribute_iff_separated hattribute.chars).mp hattribute
  · intro hseparated
    constructor
    · intro hpassed
      obtain ⟨-, hchars⟩ := column.exists_attr_iff.mp hpassed
      exact (attribute_iff_separated hchars).mpr (hseparated hpassed)
    · exact fun hattribute => ⟨_, attr_of_attribute hattribute⟩

end Column

namespace SearchRequest

/-- The condition of a query that is put to a directory is on columns that pass the check. -/
theorem chars_of_build {settings : SearchSettings} {q : Query} {d : SearchRequest} (h : build settings q = .ok d) :
    ∀ column ∈ q.selectionColumns, AttributeChars column.sourceName.toList := by
  obtain ⟨t, s, -, hs, -⟩ := build_filter h
  obtain ⟨filter, hfilter, -⟩ := filterOf_eq_ok hs
  rw [Query.selectionColumns]
  cases hselection : q.selection with
  | none =>
    intro column hcolumn
    cases hcolumn
  | some condition =>
    rw [hselection] at hfilter
    obtain ⟨f, -, hwrites⟩ := Selection.compile_writes hfilter
    exact fun column hcolumn => hwrites.chars column.sourceName (List.mem_map_of_mem hcolumn)

/-- A search has a filter that can be read exactly when the dots and semicolons in the attributes of its condition
    stand where descriptions have them. -/
theorem readable_iff_separated {settings : SearchSettings} {q : Query} {d : SearchRequest}
    (h : build settings q = .ok d) : (∃ f, Filter.parse d.filter = .ok f) ↔
      ∀ column ∈ q.selectionColumns, Separated column.sourceName.toList := by
  obtain ⟨t, s, -, hs, hfilter⟩ := build_filter h
  obtain ⟨attrs, f, -, hwrites, hattrs⟩ := filterOf_writes hs
  have hchars := chars_of_build h
  rw [hfilter, hwrites.parse_ok_iff, hattrs]
  exact forall₂_congr fun column hcolumn => attribute_iff_separated (hchars column hcolumn)

/-- The check of a column passes every description, and beside them exactly the other texts of the same
    characters, whose dots and semicolons stand elsewhere. It agrees with the grammar on the columns without such
    a text, and the searches whose condition is on these columns only have a filter that can be read. -/
theorem attr_agrees_where_separated (column : Column) (settings : SearchSettings) (q : Query) :
    ((∃ attr, column.attr = .ok attr) ↔
        column.sourceName ≠ "" ∧ AttributeChars column.sourceName.toList) ∧
      (Attribute column.sourceName.toList → column.attr = .ok column.sourceName) ∧
      (((∃ attr, column.attr = .ok attr) ↔ Attribute column.sourceName.toList) ↔
        ((∃ attr, column.attr = .ok attr) → Separated column.sourceName.toList)) ∧
      ∀ d, build settings q = .ok d → ((∃ f, Filter.parse d.filter = .ok f) ↔
        ∀ column ∈ q.selectionColumns, Separated column.sourceName.toList) :=
  ⟨column.exists_attr_iff, Column.attr_of_attribute, column.attr_agrees_iff, fun _ => readable_iff_separated⟩

theorem attr_agrees_where_separated_oid :
    let surname : Column := { name := "surname", nameInSource := some "2.5.4.4;lang-en" }
    let q := (Query.ofTable { name := "people", nameInSource := some "ou=people" }).filter (.missing surname)
    let d : SearchRequest := ⟨"ou=people", "(!(2.5.4.4;lang-en=*))", [], .oneLevel, -1, none⟩
    build {} q = .ok d ∧ surname.attr = .ok "2.5.4.4;lang-en" ∧ Separated "2.5.4.4;lang-en".toList ∧
      ∃ f, Filter.parse "(!(2.5.4.4;lang-en=*))" = .ok f := by
  intro surname q d
  have hbuild : build {} q = .ok d := toOption_eq_some.mp (by decide +kernel)
  have hattribute : Attribute surname.sourceName.toList := by decide +kernel
  obtain ⟨-, hpasses, hagrees, hreadable⟩ := attr_agrees_where_separated surname {} q
  have hattr : surname.attr = .ok "2.5.4.4;lang-en" := hpasses hattribute
  have hseparated : Separated "2.5.4.4;lang-en".toList :=
    hagrees.mp (iff_of_true ⟨_, hattr⟩ hattribute) ⟨_, hattr⟩
  exact ⟨hbuild, hattr, hseparated, (hreadable d hbuild).mpr (List.forall_mem_singleton.mpr hseparated)⟩

/-- A column that passes the check and a search on it, although the filter of the search cannot be read. -/
theorem attr_passes_undescribed :
    let code : Column := { name := "2fa" }
    let q := (Query.ofTable { name := "people", nameInSource := some "ou=people" }).filter (.equals code (.string "x"))
    let d : SearchRequest := ⟨"ou=people", "(2fa=x)", [], .oneLevel, -1, none⟩
    code.attr = .ok code.sourceName ∧ ¬Attribute code.sourceName.toList ∧
      build {} q = .ok d ∧ Filter.parse d.filter = .error (.mismatch 1 2) := by
  intro code q d
  refine ⟨toOption_eq_some.mp (by decide +kernel), by decide, toOption_eq_some.mp (by decide +kernel), ?_⟩
  exact error?_eq_some.mp (by decide +kernel)

end SearchRequest

end DirectorySearch
