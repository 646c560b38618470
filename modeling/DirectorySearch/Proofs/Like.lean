import DirectorySearch.Proofs.Except
import DirectorySearch.Proofs.RoundTrip
import DirectorySearch.Search.Like

/-! LIKE patterns, sign by sign. A pattern without a wildcard for one character is a row of literal runs
    with a wildcard between each two, and its body is the text of the item with these runs as pieces. -/

namespace DirectorySearch.Like

/-- What a place in a pattern stands for. -/
inductive Sign where
  | literal (c : Char)
  | anyText
  | anyChar
deriving Repr, BEq, DecidableEq

/-- The signs of a pattern, from left to right. The escape character makes a wildcard or itself literal,
    and must not stand before anything else. -/
def signs? (escape : Option Char) : List Char → Option (List Sign)
  | [] => some []
  | c :: r =>
    if some c = escape then
      match r with
      | [] => none
      | d :: r =>
        if d = '%' ∨ d = '_' ∨ some d = escape then (signs? escape r).map (.literal d :: ·) else none
    else if c = '%' then (signs? escape r).map (.anyText :: ·)
    else if c = '_' then (signs? escape r).map (.anyChar :: ·)
    else (signs? escape r).map (.literal c :: ·)

/-- The literal text before the first wildcard, and the one after each, where every wildcard stands for
    any text. -/
def runs? : List Sign → Option (List Char × List (List Char))
  | [] => some ([], [])
  | .literal c :: r => (runs? r).map fun runs => (c :: runs.1, runs.2)
  | .anyText :: r => (runs? r).map fun runs => ([], runs.1 :: runs.2)
  | .anyChar :: _ => none

/-- The item that asks for literal runs with any text between them: an equality when there is one run
    only, else the substring item with the runs that are not empty. -/
def item (attr : String) (first : List Char) : List (List Char) → Item String
  | [] => .compare .equal attr (.ofList first)
  | others => (Item.substrings attr (some (.ofList first)) (others.dropLast.map .ofList)
      (others.getLast?.map .ofList)).normal

/-! ### Bodies -/

/-- Runs with stars between them. A star has been written before if `starred`, and then an empty run
    needs none of its own. -/
def joined (starred : Bool) (first : List Char) : List (List Char) → List Char
  | [] => Escape.escapeChars first
  | next :: others =>
    Escape.escapeChars first ++ ((if starred && first.isEmpty then [] else ['*']) ++ joined true next others)

theorem joined_cons (starred : Bool) (c : Char) (first : List Char) (others : List (List Char)) :
    joined starred (c :: first) others = Escape.escapeChar c ++ joined false first others := by
  cases others <;> simp [joined, Escape.escapeChars]

theorem joined_nil_cons (starred : Bool) (first : List Char) (others : List (List Char)) :
    joined starred [] (first :: others) =
      if starred then joined true first others else '*' :: joined true first others := by
  cases starred <;> simp [joined, Escape.escapeChars]

theorem body_percent {escape : Option Char} (h : some '%' ≠ escape) (starred : Bool) (r : List Char) :
    body escape starred ('%' :: r) = do
      let rest ← body escape true r
      return if starred then rest else '*' :: rest := by
  rw [body.eq_def]
  simp only [if_neg h]
  rfl

theorem body_underscore {escape : Option Char} (h : some '_' ≠ escape) (starred : Bool) (r : List Char) :
    body escape starred ('_' :: r) = .error .singleWildcard := by
  rw [body.eq_def]
  simp only [if_neg h]
  rfl

theorem body_plain {escape : Option Char} {c : Char} (h : some c ≠ escape) (hp : c ≠ '%') (hu : c ≠ '_')
    (starred : Bool) (r : List Char) :
    body escape starred (c :: r) = do return Escape.escapeChar c ++ (← body escape false r) := by
  rw [body.eq_def]
  simp only [if_neg h, hp, hu, or_self, if_false]

theorem bind_runs_literal (c : Char) (signs : Option (List Sign)) :
    (signs.map (.literal c :: ·)).bind runs? = (signs.bind runs?).map fun runs => (c :: runs.1, runs.2) := by
  cases signs <;> rfl

theorem bind_runs_anyText (signs : Option (List Sign)) :
    (signs.map (.anyText :: ·)).bind runs? = (signs.bind runs?).map fun runs => ([], runs.1 :: runs.2) := by
  cases signs <;> rfl

theorem bind_runs_anyChar (signs : Option (List Sign)) : (signs.map (.anyChar :: ·)).bind runs? = none := by
  cases signs <;> rfl

/-- One literal character more in front of what has a body. -/
theorem body_literal {rest : Except Problem (List Char)} {signs : Option (List Sign)} (c : Char)
    (ih : ∀ b, rest = .ok b ↔ ∃ runs, signs.bind runs? = some runs ∧ b = joined false runs.1 runs.2) (starred : Bool)
    (b : List Char) :
    (do return Escape.escapeChar c ++ (← rest)) = (.ok b : Except Problem (List Char)) ↔
      ∃ runs, (signs.map (.literal c :: ·)).bind runs? = some runs ∧ b = joined starred runs.1 runs.2 := by
  simp only [bind_eq_ok, pure_eq_ok, ih, bind_runs_literal, Option.map_eq_some_iff]
  constructor
  · rintro ⟨_, ⟨runs, hruns, rfl⟩, rfl⟩
    exact ⟨_, ⟨runs, hruns, rfl⟩, (joined_cons starred c _ _).symm⟩
  · rintro ⟨_, ⟨runs, hruns, rfl⟩, rfl⟩
    exact ⟨_, ⟨runs, hruns, rfl⟩, (joined_cons starred c _ _).symm⟩

/-- A pattern has a body exactly when its signs can be told and none asks for one character; the body is
    its runs with stars between them. -/
theorem body_eq_ok {escape : Option Char} {pattern : List Char} (starred : Bool) (b : List Char) :
    body escape starred pattern = .ok b ↔
      ∃ runs, (signs? escape pattern).bind runs? = some runs ∧ b = joined starred runs.1 runs.2 := by
  fun_induction signs? escape pattern generalizing starred b with
  | case1 =>
    simp only [body, pure_eq_ok, Option.bind_some, runs?, Option.some.injEq, exists_eq_left', joined]
    exact eq_comm
  | case2 c hc => simp [body, hc, error_eq_ok]
  | case3 c hc d r hd ih =>
    rw [body, if_pos hc, if_pos hd]
    exact body_literal d (ih false) starred b
  | case4 c hc d r hd => simp [body, hc, hd, error_eq_ok]
  | case5 r hc ih =>
    rw [body_percent hc]
    simp only [bind_eq_ok, pure_eq_ok, ih, bind_runs_anyText, Option.map_eq_some_iff]
    constructor
    · rintro ⟨_, ⟨runs, hruns, rfl⟩, rfl⟩
      exact ⟨_, ⟨runs, hruns, rfl⟩, (joined_nil_cons starred _ _).symm⟩
    · rintro ⟨_, ⟨runs, hruns, rfl⟩, rfl⟩
      exact ⟨_, ⟨runs, hruns, rfl⟩, (joined_nil_cons starred _ _).symm⟩
  | case6 r hc hp ih => simp [body_underscore hc, bind_runs_anyChar]
  | case7 c r hc hp hu ih =>
    rw [body_plain hc hp hu]
    exact body_literal c (ih false) starred b

/-! ### Items -/

theorem pieces_cons (run : List Char) (any : List String) :
    Writer.pieces (.ofList run :: any) =
      Escape.escapeChars run ++ ((if run.isEmpty then [] else ['*']) ++ Writer.pieces any) := by
  cases run with
  | nil => rfl
  | cons c run => simp [Writer.pieces]

/-- After a star, the runs are the pieces of a substring item and its end. -/
theorem joined_true (first : List Char) (others : List (List Char)) :
    joined true first others = Writer.pieces ((first :: others).dropLast.map .ofList) ++
      Writer.part ((first :: others).getLast?.map .ofList) := by
  induction others generalizing first with
  | nil => simp [joined, Writer.pieces, Writer.part]
  | cons next others ih =>
    rw [joined, ih, List.dropLast_cons_cons, List.map_cons, pieces_cons, List.getLast?_cons_cons]
    simp

theorem writer_item (attr : String) (first : List Char) (others : List (List Char)) :
    Writer.filter (item attr first others).toFilter = Writer.item attr ['='] (joined false first others) := by
  cases others with
  | nil => simp [item, Item.toFilter, Writer.filter, joined, Relation.symbol]
  | cons next others =>
    rw [item, Item.writer_normal]
    · simp [Item.toFilter, Writer.filter, joined, joined_true, Writer.part]
    · simp

theorem item_normal (attr : String) (first : List Char) (others : List (List Char)) :
    (item attr first others).Normal := by
  unfold item
  split
  · trivial
  · exact Item.normal_normal _

@[simp] theorem attr_item (attr : String) (first : List Char) (others : List (List Char)) :
    (item attr first others).attr = attr := by
  unfold item
  split
  · rfl
  · rw [Item.attr_normal]
    rfl

end DirectorySearch.Like
