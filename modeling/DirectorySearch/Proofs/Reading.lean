import DirectorySearch.Proofs.Component

/-! Whatever is read was written. A reader that succeeds has taken the text of the filter it gives, and
    left the rest; so a whole text is accepted exactly when it is the text of a filter that can be read
    back. -/

namespace DirectorySearch

open Token

namespace Token

theorem value_append_eq (s : List Char) : (value s).1 ++ (value s).2 = s := by
  fun_induction value s <;> simp_all

theorem word_value (s : List Char) : Word (value s).1 := by
  fun_induction value s with
  | case1 => exact .nil
  | case2 a b r ho word rest hr ih =>
    rw [hr] at ih
    exact .escape ho ih
  | case3 => exact .nil
  | case4 c r _ hc word rest hr ih =>
    rw [hr] at ih
    exact .plain hc ih
  | case5 => exact .nil

theorem value_eq {s w rest : List Char} (h : value s = (w, rest)) : s = w ++ rest ∧ Word w := by
  have happend := value_append_eq s
  have hword := word_value s
  rw [h] at happend hword
  exact ⟨happend.symm, hword⟩

theorem relation?_eq {s rest : List Char} {relation : Relation} (h : relation? s = some (relation, rest)) :
    s = relation.symbol ++ rest := by
  unfold relation? at h
  split at h <;> cases h <;> rfl

end Token

namespace Reader

open RawFilter (text allText)

/-! ### Items -/

theorem attr_eq {pos p : Nat} {s rest : List Char} {attr : String} (h : Reader.attr pos s = some ⟨attr, p, rest⟩) :
    s = attr.toList ++ rest ∧ Attribute attr.toList := by
  unfold Reader.attr at h
  split at h
  · next word rest' hread =>
    cases h
    rw [String.toList_ofList]
    exact ⟨(attribute?_append_eq hread).symm, attribute_of_attribute? hread⟩
  · cases h

theorem present_eq {pos : Nat} {s : List Char} {f : Found RawFilter} (h : (present pos s).found = some f) :
    ∃ attr rest, f.value = .present attr ∧ f.rest = ')' :: rest ∧ Attribute attr.toList ∧
      s = attr.toList ++ '=' :: '*' :: ')' :: rest := by
  unfold present at h
  split at h
  · next attr p rest hattr =>
    cases h
    obtain ⟨hs, ha⟩ := attr_eq hattr
    exact ⟨attr, rest, rfl, rfl, ha, hs⟩
  · cases h

/-- Pieces and the rest make up the text, and no piece is empty. -/
theorem pieces_eq (fuel pos : Nat) (s : List Char) :
    s = RawItem.tail (pieces fuel pos s).any (pieces fuel pos s).final ++ (pieces fuel pos s).rest ∧
      (∀ w ∈ (pieces fuel pos s).any, Piece w) ∧ ∀ w ∈ (pieces fuel pos s).final, Piece w := by
  fun_induction pieces fuel pos s with
  | case1 => simp [RawItem.tail]
  | case2 => simp [RawItem.tail]
  | case3 fuel pos s word rest hne hvalue next ih =>
    obtain ⟨hrest, hany, hfinal⟩ := ih
    obtain ⟨rfl, hword⟩ := value_eq hvalue
    refine ⟨?_, List.forall_mem_cons.mpr ⟨⟨hword, hne⟩, hany⟩, hfinal⟩
    conv => lhs; rw [hrest]
    simp [RawItem.tail, next]
  | case4 fuel pos s word rest hne hstar hvalue =>
    obtain ⟨rfl, hword⟩ := value_eq hvalue
    refine ⟨by simp [RawItem.tail], by simp, fun w hw => ?_⟩
    cases hw
    exact ⟨hword, hne⟩

/-- A substring item may lack every piece here; only the end of the component tells it from a presence. -/
theorem substrings_eq {pos : Nat} {s : List Char} {f : Found RawFilter} (h : (substrings pos s).found = some f) :
    ∃ attr initial any final, f.value = .substrings attr initial any final ∧ Attribute attr.toList ∧
      (∀ w ∈ initial, Piece w) ∧ (∀ w ∈ any, Piece w) ∧ (∀ w ∈ final, Piece w) ∧
      s = RawItem.text (.substrings attr initial any final) ++ f.rest := by
  unfold substrings at h
  split at h
  · next attr p rest hattr =>
    obtain ⟨rfl, ha⟩ := attr_eq hattr
    split at h
    · next rest' hvalue =>
      cases h
      obtain ⟨rfl, -⟩ := value_eq hvalue
      obtain ⟨hrest, hany, hfinal⟩ := pieces_eq rest'.length (p + 2) rest'
      refine ⟨attr, none, _, _, rfl, ha, by simp, hany, hfinal, ?_⟩
      conv => lhs; rw [hrest]
      simp [RawItem.text, RawItem.claim, Item.attr]
    · cases h
    · next word rest' hne hvalue =>
      cases h
      obtain ⟨rfl, hword⟩ := value_eq hvalue
      obtain ⟨hrest, hany, hfinal⟩ := pieces_eq rest'.length (p + word.length + 2) rest'
      refine ⟨attr, some word, _, _, rfl, ha, fun w hw => ?_, hany, hfinal, ?_⟩
      · cases hw
        exact ⟨hword, hne⟩
      · conv => lhs; rw [hrest]
        simp [RawItem.text, RawItem.claim, Item.attr]
    · cases h
  · cases h

theorem comparison_eq {pos : Nat} {s : List Char} {f : Found RawFilter} (h : (comparison pos s).found = some f) :
    ∃ relation attr word, f.value = .compare relation attr word ∧ Attribute attr.toList ∧ Word word ∧
      s = RawItem.text (.compare relation attr word) ++ f.rest := by
  unfold comparison at h
  split at h
  · next attr p rest hattr =>
    obtain ⟨rfl, ha⟩ := attr_eq hattr
    split at h
    · next relation rest' hrelation =>
      cases h
      obtain rfl := relation?_eq hrelation
      refine ⟨relation, attr, _, rfl, ha, word_value rest', ?_⟩
      simp [RawItem.text, RawItem.claim, Item.attr, value_append_eq]
    · cases h
  · cases h

/-- An item that a component ends after is one that is read back. -/
theorem item_eq {pos p : Nat} {s rest : List Char} {t : RawFilter}
    (h : (item pos s).found = some ⟨t, p, ')' :: rest⟩) :
    ∃ i : RawItem, t = i.toFilter ∧ i.Readable ∧ s = i.text ++ ')' :: rest := by
  simp only [item, found_orElse] at h
  cases hpresent : (present pos s).found with
  | some f =>
    rw [hpresent, Option.some_or] at h
    obtain ⟨attr, rest', hvalue, hrest, ha, rfl⟩ := present_eq hpresent
    cases h
    obtain ⟨-, rfl⟩ := List.cons.inj hrest
    exact ⟨.present attr, hvalue, ⟨ha, trivial⟩, by simp [RawItem.text, RawItem.claim, Item.attr]⟩
  | none =>
    rw [hpresent, Option.none_or] at h
    cases hsubstrings : (substrings pos s).found with
    | some f =>
      rw [hsubstrings, Option.some_or] at h
      obtain ⟨attr, initial, any, final, hvalue, ha, hinitial, hany, hfinal, rfl⟩ := substrings_eq hsubstrings
      cases h
      refine ⟨.substrings attr initial any final, hvalue, ⟨ha, hinitial, hany, hfinal, ?_⟩, rfl⟩
      -- Without a piece the text would have been read as a presence before.
      refine Decidable.byContradiction fun hbare => ?_
      simp only [not_or, Bool.not_eq_true, Option.isSome_eq_false_iff, Option.isNone_iff_eq_none, ne_eq,
        Decidable.not_not] at hbare
      obtain ⟨rfl, rfl, rfl⟩ := hbare
      have hread := present_text ha pos rest
      simp only [RawItem.text, RawItem.claim, RawItem.tail, Item.attr, Option.getD_none, List.flatMap_nil,
        List.nil_append, List.append_assoc, List.cons_append] at hpresent
      rw [hread] at hpresent
      cases hpresent
    | none =>
      rw [hsubstrings, Option.none_or] at h
      obtain ⟨relation, attr, word, hvalue, ha, hword, rfl⟩ := comparison_eq h
      exact ⟨.compare relation attr word, hvalue, ⟨ha, hword⟩, rfl⟩

/-! ### Components -/

theorem close_eq {pos : Nat} {inner : Attempt RawFilter} {f : Found RawFilter} (h : (inner.close pos).found = some f) :
    ∃ p, inner.found = some ⟨f.value, p, ')' :: f.rest⟩ := by
  unfold Attempt.close at h
  split at h
  · next tree p rest hfound =>
    cases h
    exact ⟨p, hfound⟩
  · cases h

theorem group_eq {row : Row} {make : List RawFilter → RawFilter} {f : Found RawFilter}
    (h : (row.group make).found = some f) : row.parts ≠ [] ∧ f = ⟨make row.parts, row.pos, row.rest⟩ := by
  by_cases hne : row.parts = []
  · simp [Row.group, hne, Attempt.failed] at h
  · rw [found_group hne] at h
    exact ⟨hne, (Option.some.inj h).symm⟩

theorem component_unmarked {fuel pos : Nat} {s : List Char} (hs : Unmarked s) {f : Found RawFilter}
    (h : (component (fuel + 1) pos ('(' :: s)).found = some f) :
    '(' :: s = text f.value ++ f.rest ∧ f.value.WellFormed RawItem.Readable := by
  rw [component_item hs] at h
  obtain ⟨p, hinner⟩ := close_eq h
  obtain ⟨i, hvalue, hread, rfl⟩ := item_eq hinner
  rw [hvalue, RawFilter.text_toFilter, FilterTree.wellFormed_toFilter]
  exact ⟨by simp, hread⟩

/-- A row that was read as the parts of a group is the text of that group. -/
theorem component_marked {mark : Char} {make : List RawFilter → RawFilter} (hmark : IsGroup mark make) {fuel pos : Nat}
    {s : List Char} {f : Found RawFilter}
    (hrow : s = allText (components fuel (pos + 2) s).parts ++ (components fuel (pos + 2) s).rest)
    (h : (component (fuel + 1) pos ('(' :: mark :: s)).found = some f) :
    (components fuel (pos + 2) s).parts ≠ [] ∧ f.value = make (components fuel (pos + 2) s).parts ∧
      '(' :: mark :: s = text f.value ++ f.rest := by
  rw [component_group hmark] at h
  obtain ⟨p, hinner⟩ := close_eq h
  obtain ⟨hne, heq⟩ := group_eq hinner
  obtain ⟨hvalue, -, hrest⟩ := Found.mk.inj heq
  refine ⟨hne, hvalue, ?_⟩
  conv => lhs; rw [hrow, ← hrest]
  rw [hvalue, hmark.text_eq]
  simp

mutual

/-- A component that was read is the text of the filter it gives. -/
theorem component_eq : ∀ (fuel pos : Nat) (s : List Char) {f : Found RawFilter}, (component fuel pos s).found = some f →
    s = text f.value ++ f.rest ∧ f.value.WellFormed RawItem.Readable
  | 0, pos, s, f, h => by
    simp [component, Attempt.failed] at h
  | fuel + 1, pos, s, f, h => by
    have hopen : s.head? = some '(' := Decidable.byContradiction fun hopen => by
      rw [component_found_none hopen] at h
      cases h
    obtain ⟨r, rfl⟩ := List.head?_eq_some_iff.mp hopen
    by_cases hmark : Unmarked r
    · exact component_unmarked hmark h
    obtain ⟨mark, r, rfl⟩ : ∃ mark r', r = mark :: r' := by
      cases r with
      | nil => exact absurd (fun _ hc => by cases hc) hmark
      | cons mark r => exact ⟨mark, r, rfl⟩
    obtain ⟨hrow, hall⟩ := components_eq fuel (pos + 2) r
    by_cases hand : mark = '&'
    · subst hand
      obtain ⟨hne, hvalue, htext⟩ := component_marked .and hrow h
      exact ⟨htext, hvalue ▸ ⟨hne, hall⟩⟩
    by_cases hor : mark = '|'
    · subst hor
      obtain ⟨hne, hvalue, htext⟩ := component_marked .or hrow h
      exact ⟨htext, hvalue ▸ ⟨hne, hall⟩⟩
    obtain rfl : mark = '!' := Decidable.byContradiction fun hnot => hmark fun c hc => by
      cases hc
      exact ⟨hand, hor, hnot⟩
    rw [component_not] at h
    obtain ⟨p, hinner⟩ := close_eq h
    obtain ⟨g, hg, heq⟩ := Option.map_eq_some_iff.mp hinner
    obtain ⟨hvalue, -, hrest⟩ := Found.mk.inj heq
    obtain ⟨htext, hwell⟩ := component_eq fuel (pos + 2) r hg
    refine ⟨?_, hvalue ▸ hwell⟩
    rw [htext, hrest, ← hvalue, text]
    simp

theorem components_eq : ∀ (fuel pos : Nat) (s : List Char),
    s = allText (components fuel pos s).parts ++ (components fuel pos s).rest ∧
      FilterTree.AllWellFormed RawItem.Readable (components fuel pos s).parts
  | 0, pos, s => by
    rw [components]
    exact ⟨rfl, trivial⟩
  | fuel + 1, pos, s => by
    cases hfirst : (component fuel pos s).found with
    | none =>
      obtain ⟨reach, hrow⟩ := components_stop hfirst
      rw [hrow]
      exact ⟨rfl, trivial⟩
    | some f =>
      obtain ⟨htext, hwell⟩ := component_eq fuel pos s hfirst
      obtain ⟨hrow, hall⟩ := components_eq fuel f.pos f.rest
      obtain ⟨reach, hcons⟩ := components_cons hfirst (rfl : components fuel f.pos f.rest = _)
      rw [hcons]
      refine ⟨?_, hwell, hall⟩
      conv => lhs; rw [htext, hrow]
      simp [allText]

end

/-! ### Whole texts -/

/-- A text is accepted exactly when it is the text of a filter that is read back. -/
theorem filter_eq_ok_iff {s : List Char} {t : RawFilter} :
    Reader.filter s = .ok t ↔ s = text t ∧ t.WellFormed RawItem.Readable := by
  constructor
  · intro h
    simp only [Reader.filter] at h
    split at h
    · next tree p hfound =>
      cases h
      obtain ⟨htext, hwell⟩ := component_eq s.length 0 s hfound
      exact ⟨by simpa using htext, hwell⟩
    · cases h
    · cases h
  · rintro ⟨rfl, hwell⟩
    exact filter_text hwell

/-- The text of a filter that is read back tells the filter. -/
theorem text_inj {t u : RawFilter} (ht : t.WellFormed RawItem.Readable) (hu : u.WellFormed RawItem.Readable) :
    text t = text u ↔ t = u := by
  constructor
  · intro h
    have hread := filter_text ht
    rw [h, filter_text hu] at hread
    exact (Except.ok.inj hread).symm
  · rintro rfl
    rfl

end Reader

end DirectorySearch
