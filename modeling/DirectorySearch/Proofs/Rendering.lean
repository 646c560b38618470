import DirectorySearch.Proofs.JsonGrammar

/-! The text of a JSON value, compact or with a line for each part, is written as the grammar says. So it is read as the
    draft of that value. -/

namespace DirectorySearch.Json

open Draft

/-! ### Values without parts -/

theorem written_of_value_nil {fuel : Nat} {s : List Char} {d : Draft} (hs : Begins s)
    (h : value fuel s = (d, some [])) : Written d s := by
  obtain ⟨b, w, hb, hw, heq⟩ := written_of_value _ h
  obtain ⟨c, r, rfl, hc⟩ := hs
  cases b with
  | nil =>
    rw [List.nil_append, List.append_nil] at heq
    rwa [heq]
  | cons c' b =>
    cases heq
    have hblank := hb c List.mem_cons_self
    rw [hc.1] at hblank
    cases hblank

theorem written_int (n : Int) : Written (Json.int n).draft (NumberLayout.intChars n) := by
  have hread : value 1 (NumberLayout.intChars n ++ []) = _ := value_int n ends_nil
  rw [List.append_nil] at hread
  exact written_of_value_nil (begins_int n) hread

theorem written_float (x : Double) : Written (Json.float x).draft (floatChars x) := by
  have hread : value 1 (floatChars x ++ []) = _ := value_float x ends_nil
  rw [List.append_nil] at hread
  exact written_of_value_nil (begins_float x) hread

theorem written_string (s : String) : Written (.text (Quoted.ofString s)) (stringChars s) := by
  have hread : value 1 (stringChars s ++ []) = _ := value_string s
  rw [List.append_nil] at hread
  exact written_of_value_nil (begins_cons (by decide)) hread

/-! ### Blanks -/

theorem blank_nil : Blank [] := fun _ hc => by cases hc

theorem blank_gap (spacing : Spacing) (depth : Nat) : Blank (Spacing.gap spacing depth) := by
  cases spacing with
  | compact => exact blank_nil
  | pretty =>
    refine List.forall_mem_cons.mpr ⟨rfl, fun c hc => ?_⟩
    rw [List.eq_of_mem_replicate hc]
    rfl

theorem colon_eq (spacing : Spacing) : ∃ b, Blank b ∧ Spacing.colon spacing = ':' :: b := by
  cases spacing with
  | compact => exact ⟨[], blank_nil, rfl⟩
  | pretty => exact ⟨[' '], List.forall_mem_cons.mpr ⟨rfl, blank_nil⟩, rfl⟩

/-! ### Containers -/

variable {spacing : Spacing}

mutual

theorem written_chars : ∀ (v : Json) (depth : Nat), Written v.draft (chars spacing depth v)
  | .null, _ => .null
  | .bool true, _ => .yes
  | .bool false, _ => .no
  | .int n, _ => written_int n
  | .float x, _ => written_float x
  | .string s, _ => written_string s
  | .array [], _ => .emptyArray blank_nil
  | .array (item :: items), depth => by
    have hitems := written_itemChars (item :: items) (List.cons_ne_nil _ _) (depth + 1) (blank_gap spacing depth)
    exact .array hitems
  | .object [], _ => .emptyObject blank_nil
  | .object (member :: members), depth => by
    have hmembers := written_memberChars (member :: members) (List.cons_ne_nil _ _) (depth + 1)
      (blank_gap spacing depth)
    exact .object hmembers

/-- The blanks before the closing bracket belong to the last item. -/
theorem written_itemChars : ∀ (items : List Json), items ≠ [] → ∀ (depth : Nat) {a : List Char}, Blank a →
    WrittenItems (draftItems items) (itemChars spacing depth items ++ a)
  | [], hne, _, _, _ => absurd rfl hne
  | [item], _, depth, a, ha => by
    have hitem := Padded.mk (blank_gap spacing depth) (written_chars item depth) ha
    rw [itemChars, List.append_assoc]
    exact .last hitem
  | item :: item' :: items, _, depth, a, ha => by
    have hitem := Padded.mk (blank_gap spacing depth) (written_chars item depth) blank_nil
    have hitems := written_itemChars (item' :: items) (List.cons_ne_nil _ _) depth ha
    rw [List.append_nil] at hitem
    rw [itemChars, List.append_assoc, List.cons_append]
    · exact .cons hitem hitems
    · exact List.cons_ne_nil _ _

theorem written_memberChars : ∀ (members : List (String × Json)), members ≠ [] → ∀ (depth : Nat) {a : List Char},
    Blank a → WrittenMembers (draftMembers members) (memberChars spacing depth members ++ a)
  | [], hne, _, _, _ => absurd rfl hne
  | (key, v) :: members, _, depth, a, ha => by
    obtain ⟨b, hb, hcolon⟩ := colon_eq spacing
    have hkey := Padded.mk (blank_gap spacing depth) (written_string key) blank_nil
    have hvalue {a : List Char} (ha : Blank a) := Padded.mk hb (written_chars v depth) ha
    rw [List.append_nil] at hkey
    match members with
    | [] =>
      rw [memberChars, hcolon, List.append_assoc, List.append_assoc, List.cons_append]
      exact .last hkey (hvalue ha)
    | member :: members =>
      have hmembers := written_memberChars (member :: members) (List.cons_ne_nil _ _) depth ha
      have hall := WrittenMembers.cons hkey (hvalue blank_nil) hmembers
      simp only [List.append_assoc, List.nil_append] at hall
      rw [memberChars, hcolon]
      · simp only [List.append_assoc, List.cons_append]
        exact hall
      · exact List.cons_ne_nil _ _

end

/-- The text of a value is JSON. -/
theorem padded_render (v : Json) : Padded v.draft (v.render spacing).toList := by
  have hwritten : Written v.draft (chars spacing 0 v) := written_chars v 0
  have hpadded := Padded.mk blank_nil hwritten blank_nil
  rw [List.nil_append, List.append_nil] at hpadded
  rwa [render, String.toList_ofList]

end DirectorySearch.Json
