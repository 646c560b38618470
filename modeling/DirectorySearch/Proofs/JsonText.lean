import DirectorySearch.Proofs.Numeral

/-! The draft that the text of a JSON value is read as. Values without parts are read so, whatever text follows.
    Finished, with room for its containers, the draft of a value is the value again, as long as its doubles are read
    back from their texts. -/

namespace DirectorySearch

theorem Hex.value?_digit {n : Nat} (h : n < 16) : Hex.value? (Hex.digit n) = some n := by
  revert n
  decide

namespace Json

open NumberLayout

/-! ### Texts in quotes -/

/-- How a character is read from quotes: a control character without an escape of its own by its code. -/
def Piece.ofChar (c : Char) : Piece :=
  if c.toNat < 0x20 ∧ c ∉ ['\x08', '\x0c', '\n', '\r', '\t'] then .code c.toNat else .char c

def Quoted.ofString (s : String) : Quoted := ⟨s.toList.map Piece.ofChar, none⟩

theorem Draft.code?_digits {n : Nat} (h : n < 256) :
    code? '0' '0' (Hex.digit (n / 16)) (Hex.digit (n % 16)) = some n := by
  have hzero : Hex.value? '0' = some 0 := by decide
  have hhigh : Hex.value? (Hex.digit (n / 16)) = some (n / 16) := Hex.value?_digit (by omega)
  have hlow : Hex.value? (Hex.digit (n % 16)) = some (n % 16) := Hex.value?_digit (by omega)
  simp only [code?, hzero, hhigh, hlow, Option.bind_eq_bind, Option.bind_some, Option.pure_def]
  congr 1
  omega

theorem Draft.quoted_plain {c : Char} (s : List Char) (hquote : c ≠ '"') (hslash : c ≠ '\\')
    (hcontrol : ¬c.toNat < 0x20) :
    quoted (c :: s) = (⟨.char c :: (quoted s).1.pieces, (quoted s).1.flaw⟩, (quoted s).2) := by
  rw [quoted.eq_def]
  split <;> simp_all

theorem Draft.quoted_charChars (c : Char) (s : List Char) :
    quoted (charChars c ++ s) =
      (⟨Piece.ofChar c :: (quoted s).1.pieces, (quoted s).1.flaw⟩, (quoted s).2) := by
  unfold charChars
  split
  case h_8 hquote hslash hb hf hn hr ht =>
    split
    · next hlt =>
      have hpiece : Piece.ofChar c = .code c.toNat := by
        rw [Piece.ofChar, if_pos ⟨hlt, by simp_all⟩]
      simp only [List.cons_append, List.nil_append, quoted, code?_digits (show c.toNat < 256 by omega),
        hpiece]
    · next hlt =>
      rw [Piece.ofChar, if_neg fun h => hlt h.1]
      exact quoted_plain s hquote hslash hlt
  all_goals rfl

theorem Draft.quoted_string (s : String) (rest : List Char) :
    quoted (s.toList.flatMap charChars ++ '"' :: rest) = (Quoted.ofString s, some rest) := by
  unfold Quoted.ofString
  induction s.toList with
  | nil => rfl
  | cons c cs ih => rw [List.flatMap_cons, List.append_assoc, quoted_charChars, ih, List.map_cons]

theorem Piece.spell_ofChar (c : Char) (pieces : List Piece) :
    spell (ofChar c :: pieces) none = (spell pieces none).map (c :: ·) := by
  unfold ofChar
  split
  · next h =>
    have hhigh : ¬(0xD800 ≤ c.toNat ∧ c.toNat < 0xDC00) := by omega
    have hlow : ¬(0xDC00 ≤ c.toNat ∧ c.toNat < 0xE000) := by omega
    rw [spell.eq_def (.code c.toNat :: pieces)]
    split
    · contradiction
    · contradiction
    · next heq => simp at heq
    · next heq =>
      cases heq
      rw [if_neg hhigh, if_neg hlow, Char.ofNat_toNat]
      rfl
    · next heq =>
      cases heq
      rw [if_neg hhigh, if_neg hlow, Char.ofNat_toNat]
      rfl
  · rfl

theorem Quoted.spell_ofString (s : String) : (ofString s).spell = .ok s := by
  have hspell : Piece.spell (s.toList.map Piece.ofChar) none = .ok s.toList := by
    induction s.toList with
    | nil => rfl
    | cons c cs ih => rw [List.map_cons, Piece.spell_ofChar, ih]; rfl
  simp only [spell, ofString, hspell, String.ofList_toList]

/-! ### Drafts of values -/

mutual

/-- The draft that the text of a value is read as. -/
def draft : Json → Draft
  | .null => .null
  | .bool b => .bool b
  | .int n => .number (intNumeral n)
  | .float x => (Draft.value 1 (floatChars x)).1
  | .string s => .text (Quoted.ofString s)
  | .array items => .array (draftItems items) none
  | .object members => .object (draftMembers members) none

def draftItems : List Json → List Draft
  | [] => []
  | item :: items => item.draft :: draftItems items

def draftMembers : List (String × Json) → List (Draft × Draft)
  | [] => []
  | (key, value) :: members => (.text (Quoted.ofString key), value.draft) :: draftMembers members

end

mutual

/-- How many containers are open at once in a value. -/
def depth : Json → Nat
  | .array items => depthItems items + 1
  | .object members => depthMembers members + 1
  | _ => 0

def depthItems : List Json → Nat
  | [] => 0
  | item :: items => max item.depth (depthItems items)

def depthMembers : List (String × Json) → Nat
  | [] => 0
  | (_, value) :: members => max value.depth (depthMembers members)

end

mutual

/-- Values whose whole numbers are within sixty-four bits, and whose doubles have a property. -/
def Plain (p : Double → Prop) : Json → Prop
  | .int n => InRange n
  | .float x => p x
  | .array items => PlainItems p items
  | .object members => PlainMembers p members
  | _ => True

def PlainItems (p : Double → Prop) : List Json → Prop
  | [] => True
  | item :: items => item.Plain p ∧ PlainItems p items

def PlainMembers (p : Double → Prop) : List (String × Json) → Prop
  | [] => True
  | (_, value) :: members => value.Plain p ∧ PlainMembers p members

end

section Plain

variable {p q r : Double → Prop}

mutual

/-- Two properties of all doubles give a third one. -/
theorem Plain.mp (h : ∀ x, p x → q x → r x) : ∀ {v : Json}, v.Plain p → v.Plain q → v.Plain r
  | .null, _, _ => trivial
  | .bool _, _, _ => trivial
  | .int _, hp, _ => hp
  | .float x, hp, hq => h x hp hq
  | .string _, _, _ => trivial
  | .array _, hp, hq => PlainItems.mp h hp hq
  | .object _, hp, hq => PlainMembers.mp h hp hq

theorem PlainItems.mp (h : ∀ x, p x → q x → r x) : ∀ {items : List Json}, PlainItems p items → PlainItems q items →
    PlainItems r items
  | [], _, _ => trivial
  | _ :: _, hp, hq => ⟨Plain.mp h hp.1 hq.1, PlainItems.mp h hp.2 hq.2⟩

theorem PlainMembers.mp (h : ∀ x, p x → q x → r x) : ∀ {members : List (String × Json)}, PlainMembers p members →
    PlainMembers q members → PlainMembers r members
  | [], _, _ => trivial
  | _ :: _, hp, hq => ⟨Plain.mp h hp.1 hq.1, PlainMembers.mp h hp.2 hq.2⟩

end

end Plain

/-- A container takes one off the room, and what is left is enough for its parts. -/
theorem exists_room {depth room : Nat} (h : depth + 1 ≤ room) : ∃ r, room = r + 1 ∧ depth ≤ r :=
  ⟨room - 1, by omega, by omega⟩

theorem chars_array (depth : Nat) (item : Json) (items : List Json) :
    chars .compact depth (.array (item :: items)) =
      '[' :: (itemChars .compact (depth + 1) (item :: items) ++ [']']) := by
  simp [chars, Spacing.gap]

theorem chars_object (depth : Nat) (member : String × Json) (members : List (String × Json)) :
    chars .compact depth (.object (member :: members)) =
      '\x7b' :: (memberChars .compact (depth + 1) (member :: members) ++ ['\x7d']) := by
  simp [chars, Spacing.gap]

theorem itemChars_cons (depth : Nat) (item : Json) (items : List Json) :
    itemChars .compact depth (item :: items) = chars .compact depth item ++
      (if items = [] then [] else ',' :: itemChars .compact depth items) := by
  cases items <;> simp [itemChars, Spacing.gap]

theorem memberChars_cons (depth : Nat) (key : String) (value : Json) (members : List (String × Json)) :
    memberChars .compact depth ((key, value) :: members) =
      stringChars key ++ ':' :: (chars .compact depth value ++
        (if members = [] then [] else ',' :: memberChars .compact depth members)) := by
  cases members <;> simp [memberChars, Spacing.gap, Spacing.colon]

namespace Draft

/-- A character at which a value may begin: none that is skipped, none that closes a container. -/
def Starts (c : Char) : Prop := isBlank c = false ∧ c ≠ ']' ∧ c ≠ '\x7d'

instance (c : Char) : Decidable (Starts c) :=
  inferInstanceAs (Decidable (_ ∧ _))

theorem starts_of_isDigit {c : Char} (h : c.isDigit = true) : Starts c := by
  refine ⟨?_, ?_, ?_⟩
  · by_contra hblank
    simp only [isBlank, Bool.not_eq_false, Bool.or_eq_true, beq_iff_eq] at hblank
    rcases hblank with ((rfl | rfl) | rfl) | rfl <;> cases h
  · rintro rfl
    cases h
  · rintro rfl
    cases h

theorem skipBlank_cons {c : Char} {s : List Char} (h : Starts c) : skipBlank (c :: s) = c :: s := by
  simp [skipBlank, h.1]

/-- A text that begins with a value. -/
def Begins (s : List Char) : Prop := ∃ c r, s = c :: r ∧ Starts c

theorem begins_cons {c : Char} {s : List Char} (h : Starts c) : Begins (c :: s) := ⟨c, s, rfl, h⟩

theorem Begins.append {s : List Char} (h : Begins s) (t : List Char) : Begins (s ++ t) := by
  obtain ⟨c, r, rfl, hc⟩ := h
  exact begins_cons hc

theorem value_numeral {fuel : Nat} {s : List Char} {d : Draft} {rest : List Char}
    (h : numeral false s = (d, some rest)) : value (fuel + 1) s = (d, some rest) := by
  obtain ⟨c, taken, rfl, hc, -⟩ := numeral_eq_some h
  unfold value
  rw [List.cons_append] at h ⊢
  rw [skipBlank_cons (starts_of_isDigit hc)]
  split <;> simp_all

theorem value_minus {fuel : Nat} {s : List Char} : value (fuel + 1) ('-' :: s) = numeral true s := rfl

theorem ends_nil : Ends [] := by
  rintro c ⟨⟩

theorem ends_comma {rest : List Char} : Ends (',' :: rest) := by
  rintro c ⟨⟩
  decide

theorem ends_bracket {rest : List Char} : Ends (']' :: rest) := by
  rintro c ⟨⟩
  decide

theorem ends_brace {rest : List Char} : Ends ('\x7d' :: rest) := by
  rintro c ⟨⟩
  decide

/-- The draft of a finite double does not depend on what follows its text. -/
theorem exists_value_float (x : FiniteDouble) : ∃ n : Numeral, n.Marked ∧ n.nearest? = some x ∧
    ∀ fuel rest, Ends rest →
      value (fuel + 1) (floatChars (.finite x) ++ rest) = (.number n, some rest) := by
  obtain ⟨size, n, hfinite, hmark, hnearest, hread⟩ := exists_numeral x
  refine ⟨n, hmark, hnearest, fun fuel rest hrest => ?_⟩
  have hread := hread rest hrest
  rw [floatChars, hfinite]
  cases hneg : x.negative with
  | true =>
    rw [hneg] at hread
    rw [if_pos rfl, List.cons_append, value_minus, hread]
  | false =>
    rw [hneg] at hread
    rw [if_neg Bool.false_ne_true, value_numeral hread]

theorem draft_float (x : FiniteDouble) :
    ∃ n : Numeral, (Json.float (.finite x)).draft = .number n ∧ n.Marked ∧ n.nearest? = some x := by
  obtain ⟨n, hmark, hnearest, hread⟩ := exists_value_float x
  have hvalue := hread 0 [] ends_nil
  rw [List.append_nil] at hvalue
  exact ⟨n, by rw [draft, hvalue], hmark, hnearest⟩

theorem value_float (x : Double) {fuel : Nat} {rest : List Char} (hrest : Ends rest) :
    value (fuel + 1) (floatChars x ++ rest) = ((Json.float x).draft, some rest) := by
  cases x with
  | finite x =>
    obtain ⟨n, -, -, hread⟩ := exists_value_float x
    have hvalue := hread 0 [] ends_nil
    rw [List.append_nil] at hvalue
    rw [hread fuel rest hrest, draft, hvalue]
  | infinite negative => rfl
  | nan => rfl

theorem value_int (n : Int) {fuel : Nat} {rest : List Char} (hrest : Ends rest) :
    value (fuel + 1) (intChars n ++ rest) = (.number (intNumeral n), some rest) := by
  cases n with
  | ofNat n => exact value_numeral (numeral_digitsOf hrest)
  | negSucc n =>
    rw [intChars, List.cons_append, value_minus, numeral_digitsOf hrest, intNumeral,
      decide_eq_true (Int.negSucc_lt_zero n), Int.natAbs_negSucc]

theorem value_quote {fuel : Nat} {s : List Char} :
    value (fuel + 1) ('"' :: s) = (.text (quoted s).1, (quoted s).2) := rfl

theorem value_string (s : String) {fuel : Nat} {rest : List Char} :
    value (fuel + 1) (stringChars s ++ rest) = (.text (Quoted.ofString s), some rest) := by
  rw [stringChars, List.append_assoc, List.cons_append, value_quote, List.singleton_append, quoted_string]

/-! ### First characters -/

/-- The text of a finite double has a digit first, but for a sign, and the characters of numbers after it. -/
theorem exists_floatChars (x : FiniteDouble) : ∃ c taken, c.isDigit = true ∧ (∀ y ∈ taken, InNumber y) ∧
    floatChars (.finite x) = if x.negative then '-' :: c :: taken else c :: taken := by
  obtain ⟨size, n, hfinite, -, -, hread⟩ := exists_numeral x
  obtain ⟨c, taken, hsize, hc, htaken⟩ := numeral_eq_some (hread [] ends_nil)
  rw [List.append_nil, List.append_nil] at hsize
  exact ⟨c, taken, hc, htaken, by rw [floatChars, hfinite, hsize]⟩

theorem begins_float (x : Double) : Begins (floatChars x) := by
  cases x with
  | finite x =>
    obtain ⟨c, taken, hc, -, htext⟩ := exists_floatChars x
    rw [htext]
    split
    · exact begins_cons (by decide)
    · exact begins_cons (starts_of_isDigit hc)
  | infinite negative => exact begins_cons (by decide)
  | nan => exact begins_cons (by decide)

theorem begins_int (n : Int) : Begins (intChars n) := by
  cases n with
  | ofNat n =>
    obtain ⟨c, s, hc⟩ := List.exists_cons_of_ne_nil (digitsOf_ne_nil n)
    refine ⟨c, s, hc, starts_of_isDigit (isDigit_digitsOf (n := n) ?_)⟩
    rw [hc]
    exact List.mem_cons_self
  | negSucc n => exact begins_cons (by decide)

end Draft

/-! ### Doubles -/

/-- Reads any JSON value. -/
def parse (text : String) : Reading Json :=
  (Form.ofBuffered some).read text

end Json

/-- A double that JSON has a text for. -/
def Double.Finite (x : Double) : Prop := ∃ y, x = .finite y

instance : DecidablePred Double.Finite
  | .finite x => .isTrue ⟨x, rfl⟩
  | .infinite _ => .isFalse (by rintro ⟨_, ⟨⟩⟩)
  | .nan => .isFalse (by rintro ⟨_, ⟨⟩⟩)

/-- A double that is read back from its own text. -/
def Double.ReadsBack (x : Double) : Prop := Json.parse ((Json.float x).render .compact) = .ok (.float x)

namespace Json

/-- The double of a value that is one. -/
def double? : Json → Option Double
  | .float x => some x
  | _ => none

theorem double?_eq_some {v : Json} {x : Double} : v.double? = some x ↔ v = .float x := by
  cases v <;> simp [double?]

instance : DecidablePred Double.ReadsBack := fun x =>
  decidable_of_iff ((parse ((Json.float x).render .compact)).toOption.bind double? = some x) (by
    simp only [Option.bind_eq_some_iff, toOption_eq_some, double?_eq_some, exists_eq_right, Double.ReadsBack])

theorem parse_float (x : Double) : parse ((Json.float x).render .compact) = (Json.float x).draft.finish maxDepth := by
  have htext : ((Json.float x).render .compact).toList = floatChars x := String.toList_ofList
  have hread : Draft.ofText (floatChars x) = ((Json.float x).draft, some []) := by
    have hvalue : Draft.value (2 * (floatChars x).length + 2) (floatChars x ++ []) = _ :=
      Draft.value_float x Draft.ends_nil
    rwa [List.append_nil] at hvalue
  simp only [parse, Form.read, htext, hread, Form.ofBuffered]
  cases (Json.float x).draft.finish maxDepth <;> rfl

/-- The number of a draft that is one. -/
def Draft.number? : Draft → Option Numeral
  | .number n => some n
  | _ => none

/-- A double whose text has a number below `2 ^ 53` for its digits, times no more than `10 ^ 22` or over no more than
    that, is read back. -/
theorem readsBack_of_exact {x : FiniteDouble}
    (h : ∃ n ∈ (Json.float (.finite x)).draft.number?, n.digits < 2 ^ 53 ∧ n.power.natAbs ≤ 22) :
    Double.ReadsBack (.finite x) := by
  obtain ⟨n, hn, hdigits, hpower⟩ := h
  obtain ⟨m, hdraft, hmark, hnearest⟩ := Draft.draft_float x
  rw [hdraft] at hn
  obtain rfl : m = n := Option.some.inj hn
  rw [Double.ReadsBack, parse_float, hdraft, Draft.finish]
  exact m.finish_of_exact hmark hnearest hdigits hpower

/-- Not every double is: rounding twice goes past this one, `51.248178375505404`, to the next. -/
example : ¬Double.ReadsBack (.finite ⟨false, 7212539907354464, 1027, by decide, by decide, by decide⟩) := by
  decide +kernel

namespace Draft

/-! ### Finishing -/

/-- Numbers take no room. -/
theorem finish_float {x : Double} (h : x.ReadsBack) (room : Nat) : (Json.float x).draft.finish room = .ok (.float x) := by
  rw [Double.ReadsBack, parse_float] at h
  cases x with
  | finite x =>
    obtain ⟨n, hdraft, -, -⟩ := draft_float x
    rw [hdraft] at h ⊢
    exact h
  | infinite negative => cases h
  | nan => cases h

mutual

/-- The draft of a value is finished to that value, given room for its containers. -/
theorem finish_draft : ∀ (v : Json) {room : Nat}, v.Plain Double.ReadsBack → v.depth ≤ room →
    v.draft.finish room = .ok v
  | .null, _, _, _ => rfl
  | .bool _, _, _, _ => rfl
  | .int _, _, hplain, _ => finish_intNumeral hplain
  | .float _, room, hplain, _ => finish_float hplain room
  | .string s, _, _, _ => by
    rw [draft, finish, Quoted.spell_ofString]
    rfl
  | .array items, room, hplain, hroom => by
    obtain ⟨room, rfl, hparts⟩ := exists_room hroom
    rw [draft, finish, finishItems_draftItems items hplain hparts]
    rfl
  | .object members, room, hplain, hroom => by
    obtain ⟨room, rfl, hparts⟩ := exists_room hroom
    rw [draft, finish, finishMembers_draftMembers members hplain hparts]
    rfl

theorem finishItems_draftItems : ∀ (items : List Json) {room : Nat}, PlainItems Double.ReadsBack items →
    depthItems items ≤ room → finishItems room (draftItems items) = .ok items
  | [], _, _, _ => rfl
  | item :: items, room, hplain, hroom => by
    obtain ⟨hitem, hitems⟩ := Nat.max_le.mp hroom
    rw [draftItems, finishItems, finish_draft item hplain.1 hitem,
      finishItems_draftItems items hplain.2 hitems]
    rfl

theorem finishMembers_draftMembers : ∀ (members : List (String × Json)) {room : Nat},
    PlainMembers Double.ReadsBack members → depthMembers members ≤ room →
    finishMembers room (draftMembers members) = .ok members
  | [], _, _, _ => rfl
  | (name, value) :: members, room, hplain, hroom => by
    obtain ⟨hvalue, hmembers⟩ := Nat.max_le.mp hroom
    rw [draftMembers, finishMembers, key, Quoted.spell_ofString, finish_draft value hplain.1 hvalue,
      finishMembers_draftMembers members hplain.2 hmembers]
    rfl

end

end Draft

end Json

end DirectorySearch
