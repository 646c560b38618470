import DirectorySearch.Proofs.Canonical
import DirectorySearch.Proofs.Skeleton

/-! The number of components can be read off a text. No value of a filter that is read holds a parenthesis, so
    each one belongs to a component, and each component has two: counting either of them counts the components,
    in the text that was read as well as in the one that is written. -/

namespace DirectorySearch

/-! ### Outlines -/

namespace FilterTree
variable {ε α β : Type}

mutual

/-- Reading the values of a filter keeps its outline. -/
theorem outline_traverse {read : α → Except ε β} : ∀ {t : FilterTree α} {u : FilterTree β}, t.traverse read = .ok u →
    u.outline = t.outline
  | .and parts, u, h => by
    simp only [traverse, bind_eq_ok, pure_eq_ok] at h
    obtain ⟨us, hus, rfl⟩ := h
    rw [outline, outline, outlines_traverseAll hus]
  | .or parts, u, h => by
    simp only [traverse, bind_eq_ok, pure_eq_ok] at h
    obtain ⟨us, hus, rfl⟩ := h
    rw [outline, outline, outlines_traverseAll hus]
  | .not part, u, h => by
    simp only [traverse, bind_eq_ok, pure_eq_ok] at h
    obtain ⟨v, hv, rfl⟩ := h
    rw [outline, outline, outline_traverse hv]
  | .compare .., u, h => by
    simp only [traverse, bind_eq_ok, pure_eq_ok] at h
    obtain ⟨value, -, rfl⟩ := h
    rfl
  | .present _, u, h => by
    simp only [traverse, pure_eq_ok] at h
    obtain rfl := h
    rfl
  | .substrings .., u, h => by
    simp only [traverse, bind_eq_ok, pure_eq_ok] at h
    obtain ⟨initial, -, any, -, final, -, rfl⟩ := h
    rfl

theorem outlines_traverseAll {read : α → Except ε β} : ∀ {ts : List (FilterTree α)} {us : List (FilterTree β)},
    traverseAll read ts = .ok us → outlines us = outlines ts
  | [], us, h => by
    obtain rfl := pure_eq_ok.mp h
    rfl
  | part :: parts, us, h => by
    simp only [traverseAll, bind_eq_ok, pure_eq_ok] at h
    obtain ⟨v, hv, vs, hvs, rfl⟩ := h
    rw [outlines, outlines, outline_traverse hv, outlines_traverseAll hvs]

end

mutual

/-- An outline has one opening parenthesis for each component. -/
theorem count_outline : ∀ t : FilterTree α, t.outline.count '(' = t.size
  | .and parts => by simp [outline, size, count_outlines parts, Nat.add_comm]
  | .or parts => by simp [outline, size, count_outlines parts, Nat.add_comm]
  | .not part => by simp [outline, size, count_outline part, Nat.add_comm]
  | .compare .. => rfl
  | .present _ => rfl
  | .substrings .. => rfl

theorem count_outlines : ∀ ts : List (FilterTree α), (outlines ts).count '(' = sizeAll ts
  | [] => rfl
  | part :: parts => by rw [outlines, sizeAll, List.count_append, count_outline part, count_outlines parts]

end

end FilterTree

/-! ### Counting in a text -/

namespace Skeleton

/-- A skeleton has every parenthesis of its text. -/
theorem count_after {c : Char} (hc : c = '(' ∨ c = ')') (opened : Bool) (s : List Char) :
    (after opened s).count c = s.count c := by
  induction s generalizing opened with
  | nil => rfl
  | cons d s ih =>
    rw [after]
    split
    · rw [List.count_cons, List.count_cons, ih]
    · next hdropped =>
      have hne : d ≠ c := by
        rintro rfl
        exact hdropped (hc.imp_right .inl)
      rw [ih, List.count_cons_of_ne hne]

/-- A text with the outline of a filter for its skeleton tells the size of the filter, twice. -/
theorem size_eq_of_after {α : Type} {t : FilterTree α} {s : List Char} (h : after false s = t.outline) :
    t.size = s.count '(' ∧ t.size = s.count ')' := by
  have hopen : t.size = s.count '(' := by
    rw [← count_after (.inl rfl) false, h, t.count_outline]
  have hclose : s.count '(' = s.count ')' := by
    rw [← count_after (.inl rfl) false, ← count_after (.inr rfl) false s, h, t.balanced_outline.1]
  exact ⟨hopen, hopen.trans hclose⟩

end Skeleton

namespace Filter

/-- A text that is read has the outline of its filter for a skeleton, whatever its values are and however they are
    escaped, and so has the text of that filter. -/
theorem after_of_parse {s : String} {f : Filter} (h : Filter.parse s = .ok f) :
    Skeleton.after false s.toList = f.outline ∧ Skeleton.after false f.render.toList = f.outline := by
  obtain ⟨t, htext, hread, hdecode⟩ := parse_eq_ok h
  have hspelled : t.WellFormed RawItem.Spelled := hread.imp fun _ hi => ⟨hi.1.chars, hi.2⟩
  have hchars : f.WellFormed fun i => Token.AttributeChars i.attr.toList :=
    (RawFilter.decoded hread hdecode).1.imp fun _ hi => hi.1.chars
  constructor
  · rw [htext, Skeleton.after_text_eq hspelled, FilterTree.outline_traverse hdecode]
  · rw [Filter.render, String.toList_ofList, Skeleton.after_writer hchars]

/-- The components of a filter that is read are as many as the opening parentheses of its text, and as many as the
    closing ones. The same holds of the text that the filter is written as. -/
theorem size_eq_parentheses (s : String) (f : Filter) (h : Filter.parse s = .ok f) :
    (f.size = s.toList.count '(' ∧ f.size = s.toList.count ')') ∧
      f.size = f.render.toList.count '(' ∧ f.size = f.render.toList.count ')' := by
  obtain ⟨htext, hrender⟩ := after_of_parse h
  exact ⟨Skeleton.size_eq_of_after htext, Skeleton.size_eq_of_after hrender⟩

/-- Escaped parentheses are none of the text, and the two texts may differ. -/
theorem size_eq_parentheses_escaped :
    let s := "(&(cn=\\28a\\29*\\C3\\a9)(!(|(2.5.4.3;x>=)(uid=*))))"
    ∃ f, Filter.parse s = .ok f ∧ f.render = "(&(cn=\\28a\\29*é)(!(|(2.5.4.3;x>=)(uid=*))))" ∧ f.size = 6 ∧
      (f.size = s.toList.count '(' ∧ f.size = s.toList.count ')') ∧
        f.size = f.render.toList.count '(' ∧ f.size = f.render.toList.count ')' := by
  intro s
  have hread : (Filter.parse s).toOption.map (fun f => (f.render, f.size)) =
      some ("(&(cn=\\28a\\29*é)(!(|(2.5.4.3;x>=)(uid=*))))", 6) := by
    decide +kernel
  obtain ⟨f, hf, heq⟩ := Option.map_eq_some_iff.mp hread
  obtain ⟨hrender, hsize⟩ := Prod.mk.inj heq
  exact ⟨f, toOption_eq_some.mp hf, hrender, hsize, size_eq_parentheses s f (toOption_eq_some.mp hf)⟩

end Filter

end DirectorySearch
