import DirectorySearch.Proofs.Like
import Mathlib.Order.Defs.LinearOrder

/-! Which entries an item matches, and which texts a LIKE pattern does. A pattern and the item that stands
    for it match the same. -/

namespace DirectorySearch

/-! ### Parts of a text -/

namespace Text

/-- Some end of the text satisfies `p`. -/
def someEnd (p : List Char → Bool) : List Char → Bool
  | [] => p []
  | c :: s => p (c :: s) || someEnd p s

/-- The text starts with `start`, and the rest satisfies `p`. -/
def startsThen (start : List Char) (p : List Char → Bool) (s : List Char) : Bool :=
  start.isPrefixOf s && p (s.drop start.length)

theorem someEnd_iff {p : List Char → Bool} {s : List Char} : someEnd p s = true ↔ ∃ t, t <:+ s ∧ p t = true := by
  induction s with
  | nil => simp [someEnd]
  | cons c s ih =>
    simp only [someEnd, Bool.or_eq_true, ih, List.suffix_cons_iff]
    constructor
    · rintro (h | ⟨t, ht, h⟩)
      · exact ⟨_, .inl rfl, h⟩
      · exact ⟨t, .inr ht, h⟩
    · rintro ⟨t, rfl | ht, h⟩
      · exact .inl h
      · exact .inr ⟨t, ht, h⟩

/-- Where a longer text satisfies `p` if one of its ends does, only the text itself counts. -/
theorem someEnd_eq_self {p : List Char → Bool} (hp : ∀ {t s : List Char}, t <:+ s → p t = true → p s = true)
    (s : List Char) : someEnd p s = p s := by
  rw [Bool.eq_iff_iff, someEnd_iff]
  constructor
  · rintro ⟨t, ht, h⟩
    exact hp ht h
  · exact fun h => ⟨s, List.suffix_refl s, h⟩

theorem startsThen_iff {start s : List Char} {p : List Char → Bool} :
    startsThen start p s = true ↔ ∃ t, s = start ++ t ∧ p t = true := by
  rw [startsThen, Bool.and_eq_true, List.isPrefixOf_iff_prefix]
  constructor
  · rintro ⟨⟨t, rfl⟩, h⟩
    exact ⟨t, rfl, by rwa [List.drop_left] at h⟩
  · rintro ⟨t, rfl, h⟩
    exact ⟨List.prefix_append start t, by rwa [List.drop_left]⟩

@[simp] theorem startsThen_nil (p : List Char → Bool) : startsThen [] p = p := by
  funext s
  simp [startsThen]

@[simp] theorem startsThen_cons_cons (c d : Char) (start s : List Char) (p : List Char → Bool) :
    startsThen (c :: start) p (d :: s) = (c == d && startsThen start p s) := by
  simp [startsThen, List.isPrefixOf, Bool.and_assoc]

theorem startsThen_isEmpty {start s : List Char} : startsThen start List.isEmpty s = true ↔ s = start := by
  rw [startsThen_iff]
  simp only [List.isEmpty_iff, exists_eq_right, List.append_nil]

/-- The text has the pieces one after the other, and ends with `final` after them. -/
def hasPieces (final : List Char) : List (List Char) → List Char → Bool
  | [], s => final.isSuffixOf s
  | piece :: pieces, s => someEnd (startsThen piece (hasPieces final pieces)) s

theorem hasPieces_longer {final : List Char} : ∀ (pieces : List (List Char)) {t s : List Char}, t <:+ s →
    hasPieces final pieces t = true → hasPieces final pieces s = true
  | [], t, s, hts, h => by
    rw [hasPieces, List.isSuffixOf_iff_suffix] at h ⊢
    exact h.trans hts
  | piece :: pieces, t, s, hts, h => by
    rw [hasPieces, someEnd_iff] at h ⊢
    obtain ⟨r, hr, h⟩ := h
    exact ⟨r, hr.trans hts, h⟩

/-- Every text has an empty piece, everywhere. -/
theorem hasPieces_nil_cons (final : List Char) (pieces : List (List Char)) :
    hasPieces final ([] :: pieces) = hasPieces final pieces := by
  funext s
  rw [hasPieces, startsThen_nil, someEnd_eq_self (hasPieces_longer pieces)]

end Text

/-! ### Items and entries -/

/-- What an entry holds of each attribute: nothing, or one value. -/
abbrev Entry := String → Option String

/-- Whether a value of an attribute compares with an assertion value, in a given order of texts. An approximate
    comparison is taken as equality. -/
def Relation.holds (order : LinearOrder String) : Relation → String → String → Bool
  | .equal, a, b => a == b
  | .greaterOrEqual, a, b => @decide (order.le b a) (order.toDecidableLE b a)
  | .lessOrEqual, a, b => @decide (order.le a b) (order.toDecidableLE a b)
  | .approx, a, b => a == b

namespace Item

/-- Whether an entry matches an item. One without the attribute matches none. -/
def holds (order : LinearOrder String) (e : Entry) : Item String → Bool
  | .compare relation attr value => (e attr).any fun v => relation.holds order v value
  | .present attr => (e attr).isSome
  | .substrings attr initial any final => (e attr).any fun v =>
    Text.startsThen (initial.getD "").toList (Text.hasPieces (final.getD "").toList (any.map String.toList)) v.toList

theorem getD_filter (value : Option String) : (value.filter (· ≠ "")).getD "" = value.getD "" := by
  cases value with
  | none => rfl
  | some p => by_cases h : p = "" <;> simp [Option.filter, h]

theorem hasPieces_filter (final : List Char) (any : List String) :
    Text.hasPieces final ((any.filter (· ≠ "")).map String.toList) = Text.hasPieces final (any.map String.toList) := by
  induction any with
  | nil => rfl
  | cons piece any ih =>
    by_cases h : piece = ""
    · subst h
      rw [List.filter_cons_of_neg (by simp), ih]
      exact (Text.hasPieces_nil_cons final _).symm
    · rw [List.filter_cons_of_pos (by simpa using h), List.map_cons, List.map_cons]
      funext s
      rw [Text.hasPieces, Text.hasPieces, ih]

/-- An item without its empty pieces matches the same entries. -/
theorem holds_normal (order : LinearOrder String) (e : Entry) (i : Item String) :
    i.normal.holds order e = i.holds order e := by
  cases i with
  | substrings attr initial any final =>
    have hfilter : (Item.substrings attr (initial.filter (· ≠ "")) (any.filter (· ≠ ""))
        (final.filter (· ≠ ""))).holds order e = (Item.substrings attr initial any final).holds order e := by
      simp only [holds, getD_filter, hasPieces_filter]
    simp only [normal]
    split
    · next h =>
      obtain ⟨h1, h2, h3⟩ := h
      rw [← hfilter, h1, h2, h3]
      simp only [holds]
      cases e attr <;> rfl
    · exact hfilter
  | _ => rfl

end Item

/-! ### Patterns -/

namespace Like

/-- Whether a text fits a pattern. -/
def fits : List Sign → List Char → Bool
  | [], s => s.isEmpty
  | .literal _ :: _, [] => false
  | .literal c :: r, d :: s => c == d && fits r s
  | .anyText :: r, s => Text.someEnd (fits r) s
  | .anyChar :: _, [] => false
  | .anyChar :: r, _ :: s => fits r s

/-- The text has each run after some gap, and ends with the last. -/
def afterGaps : List (List Char) → List Char → Bool
  | [], s => s.isEmpty
  | run :: runs, s => Text.someEnd (Text.startsThen run (afterGaps runs)) s

theorem fits_eq_runs : ∀ {signs : List Sign} {runs : List Char × List (List Char)}, runs? signs = some runs →
    fits signs = Text.startsThen runs.1 (afterGaps runs.2)
  | [], runs, h => by
    cases h
    rw [Text.startsThen_nil]
    rfl
  | .literal c :: r, runs, h => by
    obtain ⟨runs, hruns, rfl⟩ := Option.map_eq_some_iff.mp h
    funext s
    cases s with
    | nil => rfl
    | cons d s => rw [fits, Text.startsThen_cons_cons, fits_eq_runs hruns]
  | .anyText :: r, runs, h => by
    obtain ⟨runs, hruns, rfl⟩ := Option.map_eq_some_iff.mp h
    rw [Text.startsThen_nil]
    funext s
    rw [fits, afterGaps, fits_eq_runs hruns]

/-- The last run is the end of the text, and the others are pieces before it. -/
theorem afterGaps_eq_pieces (first : List Char) (others : List (List Char)) :
    afterGaps (first :: others) =
      Text.hasPieces ((first :: others).getLast?.getD []) (first :: others).dropLast := by
  induction others generalizing first with
  | nil =>
    funext s
    rw [afterGaps, Bool.eq_iff_iff, Text.someEnd_iff]
    have hend (t : List Char) : Text.startsThen first (afterGaps []) t = true ↔ t = first := Text.startsThen_isEmpty
    simp only [hend, exists_eq_right]
    exact List.isSuffixOf_iff_suffix.symm
  | cons next others ih =>
    funext s
    rw [afterGaps, ih, List.dropLast_cons_cons, List.getLast?_cons_cons, Text.hasPieces]

/-- An entry matches the item of a pattern where the value of the attribute fits the pattern. -/
theorem holds_item (order : LinearOrder String) (e : Entry) (attr : String) (first : List Char)
    (others : List (List Char)) : (item attr first others).holds order e =
      (e attr).any fun v => Text.startsThen first (afterGaps others) v.toList := by
  cases others with
  | nil =>
    have hend (v : String) : Text.startsThen first (afterGaps []) v.toList = (v == String.ofList first) := by
      rw [Bool.eq_iff_iff, beq_iff_eq]
      refine Text.startsThen_isEmpty.trans ?_
      constructor
      · rintro rfl
        exact String.ofList_toList.symm
      · rintro rfl
        exact String.toList_ofList
    simp only [item, Item.holds, Relation.holds, hend]
  | cons next others =>
    have hpieces : ((next :: others).dropLast.map String.ofList).map String.toList = (next :: others).dropLast := by
      simp
    have hfinal : (((next :: others).getLast?.map String.ofList).getD "").toList =
        (next :: others).getLast?.getD [] := by
      cases (next :: others).getLast? <;> simp
    have hfirst : ((some (String.ofList first)).getD "").toList = first := String.toList_ofList
    rw [item, Item.holds_normal, Item.holds, hpieces, hfinal, hfirst, ← afterGaps_eq_pieces]
    simp

end Like

end DirectorySearch
