import DirectorySearch.Filter.Writer
import DirectorySearch.Proofs.Component

/-! The text of a filter reads back as the filter, but for what a text cannot show: an empty piece of a
    substring item, and a substring item without pieces. -/

namespace DirectorySearch

open Token

namespace Item

/-- The item that has the same text, with no empty piece, and with presence in place of a substring
    item without pieces. -/
def normal : Item String → Item String
  | .substrings attr initial any final =>
    let initial := initial.filter (· ≠ "")
    let any := any.filter (· ≠ "")
    let final := final.filter (· ≠ "")
    if initial = none ∧ any = [] ∧ final = none then .present attr else .substrings attr initial any final
  | i => i

/-- No piece is empty, and a substring item has a piece. -/
def Normal : Item String → Prop
  | .substrings _ initial any final => (∀ p ∈ initial, p ≠ "") ∧ (∀ p ∈ any, p ≠ "") ∧ (∀ p ∈ final, p ≠ "") ∧
    (initial.isSome = true ∨ any ≠ [] ∨ final.isSome = true)
  | _ => True

/-- The attribute of an item is a description. -/
def Described {α : Type} (i : Item α) : Prop := Attribute i.attr.toList

/-- The item with its values as written. -/
def escaped : Item String → RawItem
  | .compare relation attr value => .compare relation attr (Escape.escapeChars value.toList)
  | .present attr => .present attr
  | .substrings attr initial any final =>
    .substrings attr (initial.map fun p => Escape.escapeChars p.toList) (any.map fun p => Escape.escapeChars p.toList)
      (final.map fun p => Escape.escapeChars p.toList)

@[simp] theorem attr_normal (i : Item String) : i.normal.attr = i.attr := by
  cases i with
  | substrings attr initial any final =>
    simp only [normal]
    split <;> rfl
  | _ => rfl

@[simp] theorem attr_escaped (i : Item String) : i.escaped.attr = i.attr := by
  cases i <;> rfl

theorem normal_normal (i : Item String) : i.normal.Normal := by
  cases i with
  | substrings attr initial any final =>
    simp only [normal]
    split
    · trivial
    · next h =>
      refine ⟨?_, ?_, ?_, ?_⟩
      · intro p hp
        simpa using (Option.filter_eq_some_iff.mp hp).2
      · intro p hp
        simpa using (List.mem_filter.mp hp).2
      · intro p hp
        simpa using (Option.filter_eq_some_iff.mp hp).2
      · by_cases h1 : (initial.filter (· ≠ "")).isSome = true
        · exact Or.inl h1
        by_cases h2 : any.filter (· ≠ "") = []
        · refine Or.inr (Or.inr (Option.isSome_iff_ne_none.mpr fun h3 => ?_))
          exact h ⟨Option.not_isSome_iff_eq_none.mp h1, h2, h3⟩
        · exact Or.inr (Or.inl h2)
  | _ => trivial

theorem Normal.normal_eq {i : Item String} (h : i.Normal) : i.normal = i := by
  cases i with
  | substrings attr initial any final =>
    obtain ⟨hinitial, hany, hfinal, hsome⟩ := h
    have h1 : initial.filter (· ≠ "") = initial := by
      cases initial with
      | none => rfl
      | some p => simp [hinitial p rfl]
    have h2 : any.filter (· ≠ "") = any := by simpa using hany
    have h3 : final.filter (· ≠ "") = final := by
      cases final with
      | none => rfl
      | some p => simp [hfinal p rfl]
    simp only [normal, h1, h2, h3]
    rw [if_neg]
    rintro ⟨rfl, rfl, rfl⟩
    simp at hsome
  | _ => rfl

theorem piece_escapeChars {p : String} (h : p ≠ "") : Piece (Escape.escapeChars p.toList) := by
  refine ⟨word_escapeChars _, fun hnil => h ?_⟩
  exact String.toList_eq_nil_iff.mp (Escape.escapeChars_eq_nil.mp hnil)

theorem Normal.worded {i : Item String} (h : i.Normal) : i.escaped.Worded := by
  cases i with
  | compare relation attr value => exact word_escapeChars _
  | present attr => trivial
  | substrings attr initial any final =>
    obtain ⟨hinitial, hany, hfinal, hsome⟩ := h
    refine ⟨?_, ?_, ?_, ?_⟩
    · intro w hw
      obtain ⟨p, hp, rfl⟩ := Option.map_eq_some_iff.mp hw
      exact piece_escapeChars (hinitial p hp)
    · intro w hw
      obtain ⟨p, hp, rfl⟩ := List.mem_map.mp hw
      exact piece_escapeChars (hany p hp)
    · intro w hw
      obtain ⟨p, hp, rfl⟩ := Option.map_eq_some_iff.mp hw
      exact piece_escapeChars (hfinal p hp)
    · simpa using hsome

/-! ### Decoding -/

theorem decode_escapeChars (s : String) : Reader.decode (Escape.escapeChars s.toList) = .ok s := by
  rw [Reader.decode, Escape.unescapeChars?_escapeChars]
  simp only [String.ofList_toList]

theorem mapM_decode_option (value : Option String) :
    (value.map fun p => Escape.escapeChars p.toList).mapM Reader.decode = .ok value := by
  cases value with
  | none => rfl
  | some p =>
    simp only [Option.map_some, Option.mapM_some, decode_escapeChars]
    rfl

theorem mapM_decode_list (values : List String) :
    (values.map fun p => Escape.escapeChars p.toList).mapM Reader.decode = .ok values := by
  induction values with
  | nil => rfl
  | cons p values ih =>
    simp only [List.map_cons, List.mapM_cons, decode_escapeChars, ih]
    rfl

theorem traverse_escaped (i : Item String) : i.escaped.toFilter.traverse Reader.decode = .ok i.toFilter := by
  cases i with
  | compare relation attr value =>
    simp only [escaped, toFilter, FilterTree.traverse, decode_escapeChars]
    rfl
  | present attr => rfl
  | substrings attr initial any final =>
    simp only [escaped, toFilter, FilterTree.traverse, mapM_decode_option, mapM_decode_list]
    rfl

/-! ### Texts -/

/-- The text of an item, with its parentheses. -/
def text (i : Item String) : List Char :=
  RawFilter.text i.escaped.toFilter

theorem part_filter (value : Option String) :
    Writer.part (value.filter (· ≠ "")) = Writer.part value := by
  cases value with
  | none => rfl
  | some p =>
    by_cases h : p = ""
    · subst h
      rfl
    · simp [Option.filter, h]

theorem part_eq (value : Option String) :
    Writer.part value = (value.map fun p => Escape.escapeChars p.toList).getD [] := by
  cases value <;> rfl

theorem pieces_filter (any : List String) : Writer.pieces (any.filter (· ≠ "")) = Writer.pieces any := by
  simp only [Writer.pieces, List.filter_filter, Bool.and_self]

theorem pieces_eq {any : List String} (h : ∀ p ∈ any, p ≠ "") :
    Writer.pieces any = (any.map fun p => Escape.escapeChars p.toList).flatMap (· ++ ['*']) := by
  have hfilter : any.filter (· ≠ "") = any := by simpa using h
  rw [Writer.pieces, hfilter, List.flatMap_map]

theorem writer_eq_text {i : Item String} (h : i.Normal) : Writer.filter i.toFilter = i.text := by
  cases i with
  | compare relation attr value =>
    simp [toFilter, Writer.filter, Writer.item, text, escaped, RawFilter.text, RawItem.text, RawItem.claim, Item.attr]
  | present attr =>
    simp [toFilter, Writer.filter, Writer.item, text, escaped, RawFilter.text, RawItem.text, RawItem.claim, Item.attr]
  | substrings attr initial any final =>
    simp [toFilter, Writer.filter, Writer.item, text, escaped, RawFilter.text, RawItem.text, RawItem.claim, Item.attr,
      RawItem.tail, part_eq, pieces_eq h.2.1]

/-- Empty pieces leave no trace in the text of an item. -/
theorem writer_normal (i : Item String) : Writer.filter i.normal.toFilter = Writer.filter i.toFilter := by
  cases i with
  | substrings attr initial any final =>
    have hfilter : Writer.filter (.substrings attr (initial.filter (· ≠ "")) (any.filter (· ≠ ""))
        (final.filter (· ≠ ""))) = Writer.filter (.substrings attr initial any final) := by
      simp only [Writer.filter, part_filter, pieces_filter]
    simp only [normal]
    split
    · next h =>
      obtain ⟨h1, h2, h3⟩ := h
      rw [toFilter, toFilter, ← hfilter, h1, h2, h3]
      rfl
    · exact hfilter
  | _ => rfl

end Item

/-! ### Whole filters -/

namespace Filter

/-- The filter that the text of a filter shows. -/
def normal (f : Filter) : Filter :=
  f.mapItems Item.normal

/-- The filter with its values as written. -/
def escaped (f : Filter) : RawFilter :=
  f.mapItems Item.escaped

theorem writer_eq_item (i : Item String) : Writer.filter i.toFilter = RawFilter.text (escaped (normal i.toFilter)) := by
  rw [normal, escaped, FilterTree.mapItems_toFilter, FilterTree.mapItems_toFilter, ← Item.writer_normal,
    Item.writer_eq_text i.normal_normal, Item.text]

mutual

theorem writer_eq_text : ∀ f : Filter, Writer.filter f = RawFilter.text (escaped (normal f))
  | .and parts => by
    simp only [normal, escaped, FilterTree.mapItems, Writer.filter, RawFilter.text, writer_eq_allText parts,
      List.cons_append]
  | .or parts => by
    simp only [normal, escaped, FilterTree.mapItems, Writer.filter, RawFilter.text, writer_eq_allText parts,
      List.cons_append]
  | .not part => by
    simp only [normal, escaped, FilterTree.mapItems, Writer.filter, RawFilter.text, writer_eq_text part,
      List.cons_append]
  | .compare relation attr value => writer_eq_item (.compare relation attr value)
  | .present attr => writer_eq_item (.present attr)
  | .substrings attr initial any final => writer_eq_item (.substrings attr initial any final)

theorem writer_eq_allText : ∀ parts : List Filter,
    Writer.filters parts =
      RawFilter.allText (FilterTree.mapAllItems Item.escaped (FilterTree.mapAllItems Item.normal parts))
  | [] => rfl
  | part :: parts => by
    simp only [FilterTree.mapAllItems, Writer.filters, RawFilter.allText, writer_eq_allText parts,
      writer_eq_text part, normal, escaped]

end

theorem wellFormed_normal {f : Filter} (h : f.WellFormed Item.Described) :
    f.normal.WellFormed fun i => i.Described ∧ i.Normal := by
  rw [normal, FilterTree.wellFormed_mapItems]
  refine h.imp fun i hi => ⟨?_, i.normal_normal⟩
  rw [Item.Described, Item.attr_normal]
  exact hi

theorem normal_eq_self {f : Filter} (h : f.WellFormed Item.Normal) : f.normal = f :=
  FilterTree.mapItems_eq_self (fun _ hi => hi.normal_eq) h

theorem escaped_readable {f : Filter} (h : f.WellFormed fun i => i.Described ∧ i.Normal) :
    f.escaped.WellFormed RawItem.Readable := by
  rw [escaped, FilterTree.wellFormed_mapItems]
  refine h.imp fun i hi => ⟨?_, hi.2.worded⟩
  rw [Item.attr_escaped]
  exact hi.1

theorem escaped_spelled {f : Filter} (h : f.WellFormed fun i => AttributeChars i.attr.toList ∧ i.Normal) :
    f.escaped.WellFormed RawItem.Spelled := by
  rw [escaped, FilterTree.wellFormed_mapItems]
  refine h.imp fun i hi => ⟨?_, hi.2.worded⟩
  rw [Item.attr_escaped]
  exact hi.1

/-- The text of a filter without empty pieces reads back as that filter. -/
theorem parse_escaped {f : Filter} (h : f.WellFormed fun i => i.Described ∧ i.Normal) :
    Filter.parse (.ofList (RawFilter.text f.escaped)) = .ok f := by
  have hvalues : f.escaped.traverse Reader.decode = .ok (f.mapItems fun i => i) :=
    FilterTree.traverse_mapItems Item.traverse_escaped f
  rw [Filter.parse, String.toList_ofList, Reader.filter_text (escaped_readable h)]
  simp only [hvalues]
  rw [FilterTree.mapItems_eq_self (fun _ _ => rfl) h]

/-- The text of a filter is refused where the attribute of an item only looks like a description. -/
theorem parse_refused {f : Filter} (h : f.WellFormed fun i => AttributeChars i.attr.toList ∧ i.Normal)
    (hf : ¬f.WellFormed Item.Described) : ∃ e, Filter.parse (.ofList (RawFilter.text f.escaped)) = .error e := by
  have hunreadable : ¬f.escaped.WellFormed RawItem.Readable := by
    rw [escaped, FilterTree.wellFormed_mapItems]
    intro hreadable
    refine hf (hreadable.imp fun i hi => ?_)
    have hattr := hi.1
    rwa [Item.attr_escaped] at hattr
  obtain ⟨offset, hoffset⟩ := Reader.filter_refused (escaped_spelled h) hunreadable
  refine ⟨.mismatch (Reader.position (RawFilter.text f.escaped) offset).1
    (Reader.position (RawFilter.text f.escaped) offset).2, ?_⟩
  rw [Filter.parse, String.toList_ofList, hoffset]

/-- Reading undoes rendering, up to empty pieces. -/
theorem parse_render (f : Filter) (h : f.WellFormed Item.Described) : Filter.parse f.render = .ok f.normal := by
  rw [Filter.render, writer_eq_text]
  exact parse_escaped (wellFormed_normal h)

theorem parse_render_nested :
    let f : Filter := .and [.substrings "cn" (some "") ["a*b", ""] none,
      .not (.or [.substrings "1.2;x" (some "") [""] none, .compare .approx "sn" "(é)\x00"])]
    f.WellFormed Item.Described ∧ Filter.parse f.render = .ok (.and [.substrings "cn" none ["a*b"] none,
      .not (.or [.present "1.2;x", .compare .approx "sn" "(é)\x00"])]) := by
  have h : FilterTree.WellFormed Item.Described (.and [.substrings "cn" (some "") ["a*b", ""] none,
      .not (.or [.substrings "1.2;x" (some "") [""] none, .compare .approx "sn" "(é)\x00"])]) := by
    refine ⟨by simp, ?_, ⟨by simp, ?_, ?_, trivial⟩, trivial⟩ <;> exact isAttribute_iff.mp (by decide)
  exact ⟨h, parse_render _ h⟩

end Filter

end DirectorySearch
