import DirectorySearch.Proofs.Matching
import DirectorySearch.Proofs.Selection
import Mathlib.Data.List.Forall2

/-! What LIKE patterns and items mean, said without an algorithm: a text falls into parts, one for each sign of
    the pattern or for each piece of the item. A pattern and the item that is written for it mean the same. -/

namespace DirectorySearch

/-! ### Texts in parts -/

namespace Text

/-- The text falls into parts, one for each of `as` in turn and related to it. -/
def FallsInto {α : Type} (r : α → List Char → Prop) (as : List α) (s : List Char) : Prop :=
  ∃ parts, List.Forall₂ r as parts ∧ s = parts.flatten

section FallsInto
variable {α : Type} {r : α → List Char → Prop}

@[simp] theorem fallsInto_nil {s : List Char} : FallsInto r [] s ↔ s = [] := by
  simp [FallsInto]

theorem fallsInto_cons {a : α} {as : List α} {s : List Char} :
    FallsInto r (a :: as) s ↔ ∃ part rest, s = part ++ rest ∧ r a part ∧ FallsInto r as rest := by
  constructor
  · rintro ⟨parts, hparts, rfl⟩
    obtain ⟨part, others, hpart, hothers, rfl⟩ := List.forall₂_cons_left_iff.mp hparts
    exact ⟨part, others.flatten, List.flatten_cons, hpart, others, hothers, rfl⟩
  · rintro ⟨part, rest, rfl, hpart, parts, hparts, rfl⟩
    exact ⟨part :: parts, .cons hpart hparts, List.flatten_cons.symm⟩

end FallsInto

/-- The pieces stand in the text one after the other with gaps between them, and `final` after all of them. -/
theorem hasPieces_iff {final : List Char} : ∀ {pieces : List (List Char)} {s : List Char},
    hasPieces final pieces s = true ↔
      ∃ gap middle, FallsInto (· <+: ·) pieces middle ∧ s = gap ++ (middle ++ final)
  | [], s => by
    rw [hasPieces, List.isSuffixOf_iff_suffix]
    constructor
    · rintro ⟨gap, rfl⟩
      exact ⟨gap, [], fallsInto_nil.mpr rfl, rfl⟩
    · rintro ⟨gap, middle, hmiddle, rfl⟩
      cases fallsInto_nil.mp hmiddle
      exact List.suffix_append gap final
  | piece :: pieces, s => by
    rw [hasPieces, someEnd_iff]
    constructor
    · rintro ⟨_, ⟨gap, rfl⟩, h⟩
      obtain ⟨t, rfl, ht⟩ := startsThen_iff.mp h
      obtain ⟨next, middle, hmiddle, rfl⟩ := hasPieces_iff.mp ht
      refine ⟨gap, piece ++ next ++ middle, ?_, by simp⟩
      exact fallsInto_cons.mpr ⟨piece ++ next, middle, rfl, List.prefix_append piece next, hmiddle⟩
    · rintro ⟨gap, _, hparts, rfl⟩
      obtain ⟨_, middle, rfl, ⟨next, rfl⟩, hmiddle⟩ := fallsInto_cons.mp hparts
      refine ⟨piece ++ (next ++ (middle ++ final)), ⟨gap, by simp⟩, startsThen_iff.mpr ⟨_, rfl, ?_⟩⟩
      exact hasPieces_iff.mpr ⟨next, middle, hmiddle, rfl⟩

end Text

/-! ### Items -/

namespace Item

/-- What an item asks of the value of its attribute. A substring item asks for its start, for its pieces in order
    after it, each with some text behind it, and for its end. -/
def Accepts (order : LinearOrder String) : Item String → String → Prop
  | .compare relation _ value, x => relation.holds order x value = true
  | .present _, _ => True
  | .substrings _ initial any final, x => ∃ gap middle, Text.FallsInto (· <+: ·) (any.map String.toList) middle ∧
    x.toList = (initial.getD "").toList ++ (gap ++ (middle ++ (final.getD "").toList))

theorem holds_iff {order : LinearOrder String} {e : Entry} {i : Item String} :
    i.holds order e = true ↔ ∃ x, e i.attr = some x ∧ i.Accepts order x := by
  cases i with
  | compare relation attr value => exact Option.any_eq_true _ _
  | present attr =>
    rw [holds, Option.isSome_iff_exists]
    exact exists_congr fun x => (and_iff_left trivial).symm
  | substrings attr initial any final =>
    rw [holds, Option.any_eq_true]
    refine exists_congr fun x => and_congr_right fun _ => ?_
    rw [Text.startsThen_iff]
    constructor
    · rintro ⟨t, hx, ht⟩
      obtain ⟨gap, middle, hmiddle, rfl⟩ := Text.hasPieces_iff.mp ht
      exact ⟨gap, middle, hmiddle, hx⟩
    · rintro ⟨gap, middle, hmiddle, hx⟩
      exact ⟨_, hx, Text.hasPieces_iff.mpr ⟨gap, middle, hmiddle, rfl⟩⟩

end Item

/-! ### Patterns -/

namespace Like

/-- What a sign may stand for. -/
def Sign.StandsFor : Sign → List Char → Prop
  | .literal c, s => s = [c]
  | .anyText, _ => True
  | .anyChar, s => ∃ c, s = [c]

/-- A text matches a row of signs when it falls into parts, one that each sign stands for. -/
def Matches (signs : List Sign) (s : List Char) : Prop :=
  Text.FallsInto Sign.StandsFor signs s

theorem matches_cons {sign : Sign} {signs : List Sign} {s : List Char} :
    Matches (sign :: signs) s ↔ ∃ part rest, s = part ++ rest ∧ sign.StandsFor part ∧ Matches signs rest :=
  Text.fallsInto_cons

theorem fits_iff : ∀ {signs : List Sign} {s : List Char}, fits signs s = true ↔ Matches signs s
  | [], s => by
    rw [fits, List.isEmpty_iff]
    exact Text.fallsInto_nil.symm
  | .literal c :: r, [] => by
    rw [matches_cons]
    constructor
    · intro h
      cases h
    · rintro ⟨_, rest, hs, rfl, -⟩
      cases hs
  | .literal c :: r, d :: s => by
    rw [fits, Bool.and_eq_true, beq_iff_eq, fits_iff, matches_cons]
    constructor
    · rintro ⟨rfl, h⟩
      exact ⟨[c], s, rfl, rfl, h⟩
    · rintro ⟨_, rest, hs, rfl, h⟩
      cases hs
      exact ⟨rfl, h⟩
  | .anyText :: r, s => by
    rw [fits, Text.someEnd_iff, matches_cons]
    constructor
    · rintro ⟨t, ⟨gap, rfl⟩, h⟩
      exact ⟨gap, t, rfl, trivial, fits_iff.mp h⟩
    · rintro ⟨gap, t, rfl, -, h⟩
      exact ⟨t, List.suffix_append gap t, fits_iff.mpr h⟩
  | .anyChar :: r, [] => by
    rw [matches_cons]
    constructor
    · intro h
      cases h
    · rintro ⟨_, rest, hs, ⟨c, rfl⟩, -⟩
      cases hs
  | .anyChar :: r, d :: s => by
    rw [fits, fits_iff, matches_cons]
    constructor
    · intro h
      exact ⟨[d], s, rfl, ⟨d, rfl⟩, h⟩
    · rintro ⟨_, rest, hs, ⟨c, rfl⟩, h⟩
      cases hs
      exact h

/-- Signs are literal runs with wildcards between them unless one asks for one character. -/
theorem isSome_runs? : ∀ signs : List Sign, (runs? signs).isSome = true ↔ .anyChar ∉ signs
  | [] => by simp [runs?]
  | .literal c :: r => by simp [runs?, isSome_runs? r]
  | .anyText :: r => by simp [runs?, isSome_runs? r]
  | .anyChar :: r => by simp [runs?]

/-- The item of a pattern accepts what matches the pattern. -/
theorem accepts_item {signs : List Sign} {runs : List Char × List (List Char)} (h : runs? signs = some runs)
    (order : LinearOrder String) (attr x : String) :
    (item attr runs.1 runs.2).Accepts order x ↔ Matches signs x.toList := by
  -- The item is asked of an entry that holds the text under every attribute.
  have hholds : (item attr runs.1 runs.2).holds order (fun _ => some x) = fits signs x.toList := by
    rw [holds_item, Option.any_some, fits_eq_runs h]
  rw [← fits_iff, ← hholds, Item.holds_iff]
  simp only [Option.some.injEq, exists_eq_left']

theorem parse_item {attr : String} (hattr : Token.Attribute attr.toList) (first : List Char)
    (others : List (List Char)) :
    Filter.parse (.ofList (Writer.item attr ['='] (joined false first others))) =
      .ok (item attr first others).toFilter := by
  have hwrites := Selection.Writes.item (writer_item attr first others).symm (item_normal attr first others)
    (by rw [attr_item]; exact hattr.chars)
  rw [attr_item] at hwrites
  exact hwrites.parse_eq (List.forall_mem_singleton.mpr hattr)

theorem itemBody_eq_ok {pattern t : String} {escape : Option Char} :
    itemBody pattern escape = .ok t ↔ ∃ signs runs, signs? escape pattern.toList = some signs ∧
      runs? signs = some runs ∧ t = .ofList (joined false runs.1 runs.2) := by
  simp only [itemBody, bind_eq_ok, pure_eq_ok, body_eq_ok, Option.bind_eq_some_iff]
  constructor
  · rintro ⟨_, ⟨runs, ⟨signs, hsigns, hruns⟩, rfl⟩, rfl⟩
    exact ⟨signs, runs, hsigns, hruns, rfl⟩
  · rintro ⟨signs, runs, hsigns, hruns, rfl⟩
    exact ⟨_, ⟨runs, ⟨signs, hsigns, hruns⟩, rfl⟩, rfl⟩

theorem ofList_item (attr : String) (body : List Char) :
    String.ofList (Writer.item attr ['='] body) = "(" ++ attr ++ "=" ++ .ofList body ++ ")" := by
  rw [← String.toList_inj]
  simp [Writer.item]

open Token in
/-- A pattern has a body exactly when its signs can be told and none of them asks for one character. The item
    with that body can be read, and it accepts the texts that match the pattern. -/
theorem itemBody_exact (pattern : String) (escape : Option Char) :
    ((∃ t, itemBody pattern escape = .ok t) ↔
        ∃ signs, signs? escape pattern.toList = some signs ∧ .anyChar ∉ signs) ∧
      ∀ t, itemBody pattern escape = .ok t → ∀ attr : String, Attribute attr.toList →
        ∃ signs runs, signs? escape pattern.toList = some signs ∧ runs? signs = some runs ∧
          Filter.parse ("(" ++ attr ++ "=" ++ t ++ ")") = .ok (item attr runs.1 runs.2).toFilter ∧
          ∀ (order : LinearOrder String) (x : String),
            (item attr runs.1 runs.2).Accepts order x ↔ Matches signs x.toList := by
  constructor
  · simp only [itemBody_eq_ok, ← isSome_runs?, Option.isSome_iff_exists]
    constructor
    · rintro ⟨_, signs, runs, hsigns, hruns, -⟩
      exact ⟨signs, hsigns, runs, hruns⟩
    · rintro ⟨signs, hsigns, runs, hruns⟩
      exact ⟨_, signs, runs, hsigns, hruns, rfl⟩
  · intro t ht attr hattr
    obtain ⟨signs, runs, hsigns, hruns, rfl⟩ := itemBody_eq_ok.mp ht
    refine ⟨signs, runs, hsigns, hruns, ?_, fun order x => accepts_item hruns order attr x⟩
    rw [← ofList_item]
    exact parse_item hattr runs.1 runs.2

theorem itemBody_exact_escaped :
    let signs : List Sign := [.anyText, .literal '_', .anyText, .literal '%', .literal '*']
    let i : Item String := .substrings "cn" none ["_"] (some "%*")
    itemBody "%__%_%*" (some '_') = .ok "*_*%\\2a" ∧ signs? (some '_') "%__%_%*".toList = some signs ∧
      Filter.parse "(cn=*_*%\\2a)" = .ok i.toFilter ∧
      ∀ (order : LinearOrder String) (x : String), i.Accepts order x ↔ Matches signs x.toList := by
  intro signs i
  have hbody : itemBody "%__%_%*" (some '_') = .ok "*_*%\\2a" := toOption_eq_some.mp (by decide +kernel)
  have hsigns : signs? (some '_') "%__%_%*".toList = some signs := by decide +kernel
  obtain ⟨signs', runs, hsigns', hruns, hparse, haccepts⟩ :=
    (itemBody_exact "%__%_%*" (some '_')).2 _ hbody "cn" (by decide +kernel)
  cases hsigns.symm.trans hsigns'
  cases hruns
  exact ⟨hbody, hsigns, hparse, haccepts⟩

end Like

end DirectorySearch
