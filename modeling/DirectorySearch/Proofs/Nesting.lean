import Mathlib.Data.Bool.AllAny
import DirectorySearch.Proofs.JsonText

/-! How deep a JSON text nests, told by its brackets alone. The text of a value nests as deep as the
    value, and whatever is read from a text is nested no deeper than the text. -/

namespace DirectorySearch.Json

/-! ### Counting brackets -/

/-- The most containers open at once in a text that begins inside or outside of quotes, with some
    already open. Brackets in quotes do not count. -/
def nestingFrom : Bool → Nat → List Char → Nat
  | _, opened, [] => opened
  | true, opened, '\\' :: _ :: s => nestingFrom true opened s
  | true, opened, c :: s => if c = '"' then nestingFrom false opened s else nestingFrom true opened s
  | false, opened, c :: s =>
    if c = '"' then nestingFrom true opened s
    else if c = '[' ∨ c = '\x7b' then nestingFrom false (opened + 1) s
    else if c = ']' ∨ c = '\x7d' then max opened (nestingFrom false (opened - 1) s)
    else nestingFrom false opened s

/-- How deep a text nests. -/
def nesting (s : List Char) : Nat :=
  nestingFrom false 0 s

/-- The characters that neither open nor close quotes or containers. -/
def Unmarked (c : Char) : Prop := c ∉ ['"', '[', '\x7b', ']', '\x7d']

instance (c : Char) : Decidable (Unmarked c) :=
  inferInstanceAs (Decidable (_ ∉ _))

variable {k : Nat} {c : Char} {s r : List Char}

theorem le_nestingFrom (inside : Bool) (k : Nat) (s : List Char) : k ≤ nestingFrom inside k s := by
  fun_induction nestingFrom inside k s <;> omega

theorem nestingFrom_quote : nestingFrom false k ('"' :: s) = nestingFrom true k s := rfl

theorem nestingFrom_open : nestingFrom false k ('[' :: s) = nestingFrom false (k + 1) s := rfl

theorem nestingFrom_brace : nestingFrom false k ('\x7b' :: s) = nestingFrom false (k + 1) s := rfl

theorem nestingFrom_close : nestingFrom false (k + 1) (']' :: s) = max (k + 1) (nestingFrom false k s) := rfl

theorem nestingFrom_closeBrace :
    nestingFrom false (k + 1) ('\x7d' :: s) = max (k + 1) (nestingFrom false k s) := rfl

theorem nestingFrom_unmarked (h : Unmarked c) : nestingFrom false k (c :: s) = nestingFrom false k s := by
  simp only [Unmarked, List.mem_cons, List.not_mem_nil, or_false, not_or] at h
  rw [nestingFrom, if_neg h.1, if_neg (by simp [h]), if_neg (by simp [h])]

theorem nestingFrom_unmarked_append (h : ∀ c ∈ s, Unmarked c) :
    nestingFrom false k (s ++ r) = nestingFrom false k r := by
  induction s with
  | nil => rfl
  | cons c s ih =>
    rw [List.forall_mem_cons] at h
    rw [List.cons_append, nestingFrom_unmarked h.1, ih h.2]

theorem nestingFrom_skipBlank : nestingFrom false k (Draft.skipBlank s) = nestingFrom false k s := by
  have hblank : ∀ c ∈ s.takeWhile Draft.isBlank, Unmarked c := by
    intro c hc
    have := List.all_eq_true.mp List.all_takeWhile c hc
    simp only [Draft.isBlank, Bool.or_eq_true, beq_iff_eq] at this
    rcases this with ((rfl | rfl) | rfl) | rfl <;> decide
  have happend := nestingFrom_unmarked_append (k := k) (r := s.dropWhile Draft.isBlank) hblank
  rw [List.takeWhile_append_dropWhile] at happend
  exact happend.symm

theorem unmarked_of_inNumber (h : Draft.InNumber c) : Unmarked c := by
  simp only [Draft.InNumber, List.mem_cons, List.not_mem_nil, or_false] at h
  rcases h with h | rfl | rfl | rfl | rfl | rfl
  · intro hc
    simp only [List.mem_cons, List.not_mem_nil, or_false] at hc
    rcases hc with rfl | rfl | rfl | rfl | rfl <;> cases h
  all_goals decide

theorem unmarked_of_isDigit (h : c.isDigit = true) : Unmarked c :=
  unmarked_of_inNumber (.inl h)

theorem unmarked_numeral (hc : c.isDigit = true) (hs : ∀ x ∈ s, Draft.InNumber x) :
    ∀ x ∈ c :: s, Unmarked x := by
  rw [List.forall_mem_cons]
  exact ⟨unmarked_of_isDigit hc, fun x hx => unmarked_of_inNumber (hs x hx)⟩

/-! ### Texts in quotes -/

theorem nestingFrom_inside (hquote : c ≠ '"') (hslash : c ≠ '\\') :
    nestingFrom true k (c :: s) = nestingFrom true k s := by
  rw [nestingFrom.eq_def]
  split <;> simp_all

theorem nestingFrom_hex {n : Nat} (h : Hex.value? c = some n) :
    nestingFrom true k (c :: s) = nestingFrom true k s := by
  have hquote : Hex.value? '"' = none := by decide
  have hslash : Hex.value? '\\' = none := by decide
  apply nestingFrom_inside <;> rintro rfl <;> simp_all

/-- What stands between quotes does not nest. -/
theorem nestingFrom_quoted {q : Quoted} (h : Draft.quoted s = (q, some r)) :
    nestingFrom true k s = nestingFrom false k r := by
  fun_induction Draft.quoted s generalizing q with
  | case1 => cases h
  | case2 s =>
    cases h
    rfl
  | case3 => cases h
  | case4 a b c d s n hcode q' rest hread ih =>
    cases h
    simp only [Draft.code?, Option.bind_eq_bind, Option.bind_eq_some_iff] at hcode
    obtain ⟨_, ha, _, hb, _, hc, _, hd, -⟩ := hcode
    rw [nestingFrom, nestingFrom_hex ha, nestingFrom_hex hb, nestingFrom_hex hc, nestingFrom_hex hd, ih hread]
  | case5 => cases h
  | case6 => cases h
  | case7 e s he c hescaped q' rest hread ih =>
    cases h
    rw [nestingFrom, ih hread]
  | case8 => cases h
  | case9 => cases h
  | case10 c s hquote hlast hcode hescape hcontrol q' rest hread ih =>
    cases h
    have hslash : c ≠ '\\' := by
      intro hc
      cases s with
      | nil => exact hlast hc rfl
      | cons e s => exact hescape e s hc rfl
    rw [nestingFrom_inside hquote hslash, ih hread]

/-! ### Drafts -/

namespace Draft

mutual

/-- How many containers are open at once in a draft, its keys left aside. -/
def depth : Draft → Nat
  | .array items _ => depthItems items + 1
  | .object members _ => depthMembers members + 1
  | _ => 0

def depthItems : List Draft → Nat
  | [] => 0
  | item :: items => max item.depth (depthItems items)

def depthMembers : List (Draft × Draft) → Nat
  | [] => 0
  | (_, value) :: members => max value.depth (depthMembers members)

end

/-- What is read from `s`, of which `k` containers are open, is no deeper than `s` nests, nor is the
    rest, of which `k'` are open. -/
def Reaches (k : Nat) (s : List Char) (depth k' : Nat) (rest : Option (List Char)) : Prop :=
  k + depth ≤ nestingFrom false k s ∧ ∀ r, rest = some r → nestingFrom false k' r ≤ nestingFrom false k s

variable {k : Nat} {s : List Char}

theorem reaches_none (k' : Nat) : Reaches k s 0 k' none :=
  ⟨le_nestingFrom false k s, fun _ h => by cases h⟩

theorem reaches_some {k' : Nat} {r : List Char} (h : nestingFrom false k' r ≤ nestingFrom false k s) :
    Reaches k s 0 k' (some r) :=
  ⟨le_nestingFrom false k s, by rintro _ ⟨⟩; exact h⟩

theorem Reaches.congr {s' : List Char} {depth k' : Nat} {rest : Option (List Char)}
    (h : nestingFrom false k s' = nestingFrom false k s) (hreaches : Reaches k s depth k' rest) :
    Reaches k s' depth k' rest := by
  rwa [Reaches, h]

theorem reaches_word {d : Draft} (expected : List Char) (hd : d.depth = 0)
    (hexpected : ∀ c ∈ expected, Unmarked c) :
    Reaches k s (word d expected s).1.depth k (word d expected s).2 := by
  fun_induction word d expected s with
  | case1 s =>
    rw [hd]
    exact reaches_some (Nat.le_refl _)
  | case2 => exact reaches_none k
  | case3 expected c s ih =>
    rw [List.forall_mem_cons] at hexpected
    exact (ih hexpected.2).congr (nestingFrom_unmarked hexpected.1)
  | case4 => exact reaches_none k

/-! #### Numbers -/

theorem depth_numeral (negative : Bool) (s : List Char) : (numeral negative s).1.depth = 0 := by
  rcases numeral_cases negative s with ⟨n, rest, h⟩ | ⟨d, h, rfl | ⟨flaw, rfl⟩⟩ <;> rw [h] <;> rfl

theorem reaches_numeral {negative : Bool} :
    Reaches k s (numeral negative s).1.depth k (numeral negative s).2 := by
  rw [depth_numeral]
  refine ⟨le_nestingFrom false k s, fun r hr => ?_⟩
  obtain ⟨c, taken, hs, hc, htaken⟩ := numeral_eq_some (Prod.ext rfl hr)
  rw [hs, nestingFrom_unmarked_append (unmarked_numeral hc htaken)]

/-! #### Containers -/

theorem Reaches.bracket {depth k' : Nat} {rest : Option (List Char)} (h : Reaches (k + 1) s depth k' rest) :
    Reaches k ('[' :: s) (depth + 1) k' rest := by
  refine ⟨?_, h.2⟩
  have := h.1
  rw [nestingFrom_open]
  omega

theorem Reaches.brace {depth k' : Nat} {rest : Option (List Char)} (h : Reaches (k + 1) s depth k' rest) :
    Reaches k ('\x7b' :: s) (depth + 1) k' rest := by
  refine ⟨?_, h.2⟩
  have := h.1
  rw [nestingFrom_brace]
  omega

theorem reaches_closed : Reaches (k + 1) (']' :: s) 0 k (some s) :=
  reaches_some (Nat.le_max_right _ _)

theorem reaches_closedBrace : Reaches (k + 1) ('\x7d' :: s) 0 k (some s) :=
  reaches_some (Nat.le_max_right _ _)

/-- What holds of the parts of containers at some fuel holds of values at the next. -/
theorem reaches_value_succ {fuel : Nat}
    (hitems : ∀ k s, Reaches (k + 1) s (depthItems (items fuel s).1) k (items fuel s).2.2)
    (hmembers : ∀ k s, Reaches (k + 1) s (depthMembers (members fuel s).1) k (members fuel s).2.2) :
    Reaches k s (value (fuel + 1) s).1.depth k (value (fuel + 1) s).2 := by
  apply Reaches.congr nestingFrom_skipBlank.symm
  rw [value]
  generalize skipBlank s = s
  split
  · exact reaches_none k
  · exact (reaches_word ['u', 'l', 'l'] rfl (List.all_iff_forall_prop.mp (by decide))).congr rfl
  · exact (reaches_word ['r', 'u', 'e'] rfl (List.all_iff_forall_prop.mp (by decide))).congr rfl
  · exact (reaches_word ['a', 'l', 's', 'e'] rfl (List.all_iff_forall_prop.mp (by decide))).congr rfl
  · refine ⟨le_nestingFrom false k _, fun r hr => ?_⟩
    rw [nestingFrom_quote, nestingFrom_quoted (Prod.ext rfl hr)]
  · exact reaches_numeral.congr rfl
  · next r =>
    apply Reaches.congr (s := '[' :: skipBlank r) (nestingFrom_skipBlank (k := k + 1)).symm
    generalize skipBlank r = r
    split
    · exact (reaches_none k).bracket
    · exact reaches_closed.bracket
    · exact (hitems k _).bracket
  · next r =>
    apply Reaches.congr (s := '\x7b' :: skipBlank r) (nestingFrom_skipBlank (k := k + 1)).symm
    generalize skipBlank r = r
    split
    · exact (reaches_none k).brace
    · exact reaches_closedBrace.brace
    · exact (hmembers k _).brace
  · split
    · exact reaches_numeral
    · exact reaches_none k

/-- A part of a container, and the parts after it. -/
theorem Reaches.cons {depth depths k' : Nat} {r : List Char} {rest : Option (List Char)}
    (hpart : Reaches k s depth k (some r)) (hparts : Reaches k r depths k' rest) :
    Reaches k s (max depth depths) k' rest := by
  have hr := hpart.2 r rfl
  refine ⟨?_, fun r' h => Nat.le_trans (hparts.2 r' h) hr⟩
  have := hpart.1
  have := hparts.1
  omega

theorem Reaches.stop {depth k₁ : Nat} {rest : Option (List Char)} (h : Reaches k s depth k₁ rest) (k' : Nat) :
    Reaches k s (max depth 0) k' none := by
  rw [Nat.max_zero]
  exact ⟨h.1, fun _ h => by cases h⟩

theorem next_closed {close : Char} {r : List Char} (h : next close s = .closed r) :
    skipBlank s = close :: r := by
  unfold next at h
  split at h
  · cases h
  · next hs =>
    split at h
    · next hc =>
      cases h
      rw [hs, hc]
    · split at h <;> cases h

theorem next_more {close : Char} {r : List Char} (h : next close s = .more r) :
    nestingFrom false k s = nestingFrom false k r := by
  unfold next at h
  split at h
  · cases h
  · next hs =>
    split at h
    · cases h
    · split at h
      · next hc =>
        cases h
        rw [← nestingFrom_skipBlank, hs, hc]
        rfl
      · cases h

theorem reaches_items_succ {fuel : Nat}
    (hvalue : ∀ k s, Reaches k s (value fuel s).1.depth k (value fuel s).2)
    (hitems : ∀ k s, Reaches (k + 1) s (depthItems (items fuel s).1) k (items fuel s).2.2) :
    Reaches (k + 1) s (depthItems (items (fuel + 1) s).1) k (items (fuel + 1) s).2.2 := by
  have hfirst := hvalue (k + 1) s
  rw [items]
  split
  · next item heq =>
    rw [heq] at hfirst
    exact hfirst.stop k
  · next item r heq =>
    rw [heq] at hfirst
    split
    · next r' hnext =>
      refine hfirst.cons (reaches_closed.congr ?_)
      rw [← nestingFrom_skipBlank, next_closed hnext]
    · exact hfirst.stop k
    · next r' hnext => exact hfirst.cons ((hitems k r').congr (next_more hnext))

theorem reaches_members_succ {fuel : Nat}
    (hvalue : ∀ k s, Reaches k s (value fuel s).1.depth k (value fuel s).2)
    (hmembers : ∀ k s, Reaches (k + 1) s (depthMembers (members fuel s).1) k (members fuel s).2.2) :
    Reaches (k + 1) s (depthMembers (members (fuel + 1) s).1) k (members (fuel + 1) s).2.2 := by
  have hkey := hvalue (k + 1) s
  rw [members]
  split
  · next q r heq =>
    rw [heq] at hkey
    split
    · exact hkey.stop k
    · next r₁ hs =>
      -- Behind the key, which has no depth, a member reads like an item.
      have hpart : Reaches (k + 1) s (value fuel r₁).1.depth (k + 1) (value fuel r₁).2 := by
        have hcolon : nestingFrom false (k + 1) r = nestingFrom false (k + 1) r₁ := by
          rw [← nestingFrom_skipBlank, hs]
          rfl
        have := hkey.cons ((hvalue (k + 1) r₁).congr hcolon)
        rwa [show depth (.text q) = 0 from rfl, Nat.zero_max] at this
      split
      · next part hread =>
        rw [hread] at hpart
        exact hpart.stop k
      · next part r₂ hread =>
        rw [hread] at hpart
        split
        · next r₃ hnext =>
          refine hpart.cons (reaches_closedBrace.congr ?_)
          rw [← nestingFrom_skipBlank, next_closed hnext]
        · exact hpart.stop k
        · next r₃ hnext => exact hpart.cons ((hmembers k r₃).congr (next_more hnext))
    · exact hkey.stop k
  · exact (reaches_none k).stop k

theorem reaches (fuel : Nat) :
    (∀ k s, Reaches k s (value fuel s).1.depth k (value fuel s).2) ∧
      (∀ k s, Reaches (k + 1) s (depthItems (items fuel s).1) k (items fuel s).2.2) ∧
      ∀ k s, Reaches (k + 1) s (depthMembers (members fuel s).1) k (members fuel s).2.2 := by
  induction fuel with
  | zero => exact ⟨fun k _ => reaches_none k, fun k _ => reaches_none k, fun k _ => reaches_none k⟩
  | succ fuel ih =>
    obtain ⟨hvalue, hitems, hmembers⟩ := ih
    exact ⟨fun _ _ => reaches_value_succ hitems hmembers, fun _ _ => reaches_items_succ hvalue hitems,
      fun _ _ => reaches_members_succ hvalue hmembers⟩

/-- What is read from a text is nested no deeper than the text. -/
theorem depth_ofText (s : List Char) : (ofText s).1.depth ≤ nesting s := by
  have hread := ((reaches (2 * s.length + 2)).1 0 s).1
  rwa [Nat.zero_add] at hread

end Draft

/-! ### Values -/

theorem nestingFrom_string (s : String) :
    nestingFrom false k (stringChars s ++ r) = nestingFrom false k r := by
  rw [stringChars, List.append_assoc, List.cons_append, List.singleton_append, nestingFrom_quote,
    nestingFrom_quoted (Draft.quoted_string s r)]

theorem unmarked_int (n : Int) : ∀ c ∈ NumberLayout.intChars n, Unmarked c := by
  cases n with
  | ofNat n => exact fun c hc => unmarked_of_isDigit (NumberLayout.isDigit_digitsOf hc)
  | negSucc n =>
    rw [NumberLayout.intChars, List.forall_mem_cons]
    exact ⟨by decide, fun c hc => unmarked_of_isDigit (NumberLayout.isDigit_digitsOf hc)⟩

theorem unmarked_float (x : Double) : ∀ c ∈ floatChars x, Unmarked c := by
  cases x with
  | finite x =>
    obtain ⟨c, taken, hc, htaken, htext⟩ := Draft.exists_floatChars x
    have hunmarked := unmarked_numeral hc htaken
    rw [htext]
    split
    · rw [List.forall_mem_cons]
      exact ⟨by decide, hunmarked⟩
    · exact hunmarked
  | infinite negative =>
    show ∀ c ∈ ['n', 'u', 'l', 'l'], Unmarked c
    exact List.all_iff_forall_prop.mp (by decide)
  | nan => exact List.all_iff_forall_prop.mp (by decide)

mutual

/-- The text of a value nests as deep as the value. -/
theorem nestingFrom_chars : ∀ (v : Json) (depth k : Nat) (rest : List Char),
    nestingFrom false k (chars .compact depth v ++ rest) = max (k + v.depth) (nestingFrom false k rest)
  | v, depth, k, rest => by
    have hflat : nestingFrom false k rest = max (k + 0) (nestingFrom false k rest) :=
      (Nat.max_eq_right (le_nestingFrom false k rest)).symm
    match v with
    | .null => exact hflat
    | .bool true => exact hflat
    | .bool false => exact hflat
    | .int n => exact (nestingFrom_unmarked_append (unmarked_int n)).trans hflat
    | .float x => exact (nestingFrom_unmarked_append (unmarked_float x)).trans hflat
    | .string s => exact (nestingFrom_string s).trans hflat
    | .array [] => rfl
    | .array (item :: items) =>
      rw [chars_array, List.cons_append, List.append_assoc, List.singleton_append, nestingFrom_open,
        nestingFrom_itemChars (item :: items), nestingFrom_close, Json.depth]
      omega
    | .object [] => rfl
    | .object (member :: members) =>
      rw [chars_object, List.cons_append, List.append_assoc, List.singleton_append, nestingFrom_brace,
        nestingFrom_memberChars (member :: members), nestingFrom_closeBrace, Json.depth]
      omega

theorem nestingFrom_itemChars : ∀ (items : List Json) (depth k : Nat) (rest : List Char),
    nestingFrom false k (itemChars .compact depth items ++ rest) =
      max (k + depthItems items) (nestingFrom false k rest)
  | [], _, k, rest => (Nat.max_eq_right (le_nestingFrom false k rest)).symm
  | item :: items, depth, k, rest => by
    have hitem := nestingFrom_chars item depth k
    rw [itemChars_cons, depthItems, List.append_assoc, hitem]
    match items with
    | [] => rw [if_pos rfl, List.nil_append, depthItems, Nat.max_zero]
    | item' :: items =>
      rw [if_neg (List.cons_ne_nil _ _), List.cons_append, nestingFrom_unmarked (by decide),
        nestingFrom_itemChars (item' :: items)]
      omega

theorem nestingFrom_memberChars : ∀ (members : List (String × Json)) (depth k : Nat) (rest : List Char),
    nestingFrom false k (memberChars .compact depth members ++ rest) =
      max (k + depthMembers members) (nestingFrom false k rest)
  | [], _, k, rest => (Nat.max_eq_right (le_nestingFrom false k rest)).symm
  | (key, v) :: members, depth, k, rest => by
    have hvalue := nestingFrom_chars v depth k
    rw [memberChars_cons, depthMembers, List.append_assoc, nestingFrom_string, List.cons_append,
      nestingFrom_unmarked (by decide), List.append_assoc, hvalue]
    match members with
    | [] => rw [if_pos rfl, List.nil_append, depthMembers, Nat.max_zero]
    | member :: members =>
      rw [if_neg (List.cons_ne_nil _ _), List.cons_append, nestingFrom_unmarked (by decide),
        nestingFrom_memberChars (member :: members)]
      omega

end

theorem nesting_chars (v : Json) : nesting (chars .compact 0 v) = v.depth := by
  have h := nestingFrom_chars v 0 0 []
  rwa [List.append_nil, Nat.zero_add, nestingFrom, Nat.max_zero] at h

end DirectorySearch.Json
