import Mathlib.Data.List.TakeWhile
import DirectorySearch.Proofs.Nesting

/-! The grammar of JSON text, with the blanks that may stand around its parts and the ways to spell numbers and
    characters. What is written is read as its draft, whatever follows it; and a draft without a flaw comes from a
    text that is written so. -/

namespace DirectorySearch.Json

open Draft

/-! ### Grammar -/

/-- Blanks, of which any number may stand around a part of a text. -/
def Blank (b : List Char) : Prop := ∀ c ∈ b, isBlank c = true

/-- One digit or more. -/
def Digits (digits : List Char) : Prop := digits ≠ [] ∧ ∀ c ∈ digits, c.isDigit = true

inductive WrittenFraction : List Char → List Char → Prop where
  | none : WrittenFraction [] []
  | point {digits : List Char} (h : Digits digits) : WrittenFraction digits ('.' :: digits)

inductive WrittenExponent : Option Int → List Char → Prop where
  | none : WrittenExponent none []
  | bare {mark : Char} {digits : List Char} (hmark : mark = 'e' ∨ mark = 'E') (h : Digits digits) :
      WrittenExponent (some (digitsValue digits)) (mark :: digits)
  | plus {mark : Char} {digits : List Char} (hmark : mark = 'e' ∨ mark = 'E') (h : Digits digits) :
      WrittenExponent (some (digitsValue digits)) (mark :: '+' :: digits)
  | minus {mark : Char} {digits : List Char} (hmark : mark = 'e' ∨ mark = 'E') (h : Digits digits) :
      WrittenExponent (some (-digitsValue digits)) (mark :: '-' :: digits)

/-- A number without its sign. -/
inductive WrittenNumeral (negative : Bool) : Numeral → List Char → Prop where
  | mk {before after f x : List Char} {e : Option Int} (hbefore : IsWhole before) (hafter : WrittenFraction after f)
      (hexponent : WrittenExponent e x) :
      WrittenNumeral negative ⟨negative, before, after, e⟩ (before ++ (f ++ x))

/-- What stands between quotes. -/
inductive WrittenPieces : List Piece → List Char → Prop where
  | nil : WrittenPieces [] []
  | plain {c : Char} {ps : List Piece} {s : List Char} (hquote : c ≠ '"') (hslash : c ≠ '\\') (hc : ¬c.toNat < 0x20)
      (h : WrittenPieces ps s) : WrittenPieces (.char c :: ps) (c :: s)
  | escaped {e c : Char} {ps : List Piece} {s : List Char} (he : escaped? e = some c) (h : WrittenPieces ps s) :
      WrittenPieces (.char c :: ps) ('\\' :: e :: s)
  | code {x y z w : Char} {n : Nat} {ps : List Piece} {s : List Char} (hn : code? x y z w = some n)
      (h : WrittenPieces ps s) : WrittenPieces (.code n :: ps) ('\\' :: 'u' :: x :: y :: z :: w :: s)

mutual

/-- A value as it is written, from its first sign to its last. -/
inductive Written : Draft → List Char → Prop where
  | null : Written .null ['n', 'u', 'l', 'l']
  | yes : Written (.bool true) ['t', 'r', 'u', 'e']
  | no : Written (.bool false) ['f', 'a', 'l', 's', 'e']
  | positive {n : Numeral} {w : List Char} (h : WrittenNumeral false n w) : Written (.number n) w
  | negative {n : Numeral} {w : List Char} (h : WrittenNumeral true n w) : Written (.number n) ('-' :: w)
  | text {ps : List Piece} {w : List Char} (h : WrittenPieces ps w) : Written (.text ⟨ps, none⟩) ('"' :: (w ++ ['"']))
  | emptyArray {b : List Char} (hb : Blank b) : Written (.array [] none) ('[' :: (b ++ [']']))
  | array {items : List Draft} {w : List Char} (h : WrittenItems items w) :
      Written (.array items none) ('[' :: (w ++ [']']))
  | emptyObject {b : List Char} (hb : Blank b) : Written (.object [] none) ('\x7b' :: (b ++ ['\x7d']))
  | object {members : List (Draft × Draft)} {w : List Char} (h : WrittenMembers members w) :
      Written (.object members none) ('\x7b' :: (w ++ ['\x7d']))

/-- A value with blanks around it. -/
inductive Padded : Draft → List Char → Prop where
  | mk {d : Draft} {b w a : List Char} (hb : Blank b) (h : Written d w) (ha : Blank a) : Padded d (b ++ (w ++ a))

inductive WrittenItems : List Draft → List Char → Prop where
  | last {d : Draft} {w : List Char} (h : Padded d w) : WrittenItems [d] w
  | cons {d : Draft} {ds : List Draft} {w r : List Char} (h : Padded d w) (hr : WrittenItems ds r) :
      WrittenItems (d :: ds) (w ++ ',' :: r)

inductive WrittenMembers : List (Draft × Draft) → List Char → Prop where
  | last {q : Quoted} {d : Draft} {k w : List Char} (hk : Padded (.text q) k) (h : Padded d w) :
      WrittenMembers [(.text q, d)] (k ++ ':' :: w)
  | cons {q : Quoted} {d : Draft} {ms : List (Draft × Draft)} {k w r : List Char} (hk : Padded (.text q) k)
      (h : Padded d w) (hr : WrittenMembers ms r) : WrittenMembers ((.text q, d) :: ms) (k ++ ':' :: (w ++ ',' :: r))

end

/-! ### Numbers -/

namespace Draft

variable {s rest : List Char}

theorem digits1_written {digits : List Char} (h : Digits digits) (hrest : NoDigit rest) :
    digits1 (digits ++ rest) = .ok (digits, rest) :=
  digits1_append h.2 h.1 hrest

theorem digits_of_digits1 {digits : List Char} (h : digits1 s = .ok (digits, rest)) :
    Digits digits ∧ s = digits ++ rest := by
  obtain ⟨hs, hne, hdigits⟩ := digits1_eq h
  exact ⟨⟨hne, hdigits⟩, hs⟩

theorem fraction_written {after f : List Char} (h : WrittenFraction after f) (hrest : NoDigit rest)
    (hpoint : rest.head? ≠ some '.') : fraction (f ++ rest) = .ok (after, rest) := by
  cases h with
  | none =>
    rw [List.nil_append]
    unfold fraction
    split
    · exact absurd rfl hpoint
    · rfl
  | point h => exact digits1_written h hrest

theorem written_of_fraction {after : List Char} (h : fraction s = .ok (after, rest)) :
    ∃ f, WrittenFraction after f ∧ s = f ++ rest := by
  unfold fraction at h
  split at h
  · obtain ⟨hdigits, rfl⟩ := digits_of_digits1 h
    exact ⟨_, .point hdigits, rfl⟩
  · cases h
    exact ⟨[], .none, rfl⟩

/-- An exponent begins with a mark of its own. -/
theorem exponent_head {e : Option Int} {x : List Char} (h : WrittenExponent e x) (hrest : Ends rest) :
    NoDigit (x ++ rest) ∧ (x ++ rest).head? ≠ some '.' := by
  have hmarked {mark : Char} (hmark : mark = 'e' ∨ mark = 'E') (r : List Char) :
      NoDigit (mark :: r) ∧ (mark :: r).head? ≠ some '.' := by
    rcases hmark with rfl | rfl
    · exact ⟨by rintro c ⟨⟩; rfl, by simp⟩
    · exact ⟨by rintro c ⟨⟩; rfl, by simp⟩
  cases h with
  | none => exact ⟨hrest.noDigit, fun h => (hrest '.' h).2.1 rfl⟩
  | bare hmark _ => exact hmarked hmark _
  | plus hmark _ => exact hmarked hmark _
  | minus hmark _ => exact hmarked hmark _

theorem exponent_written {e : Option Int} {x : List Char} (h : WrittenExponent e x) (hrest : Ends rest) :
    exponent (x ++ rest) = .ok (e, rest) := by
  cases h with
  | none => exact exponent_none hrest
  | @bare mark digits hmark h =>
    obtain ⟨c, cs, rfl⟩ := List.exists_cons_of_ne_nil h.1
    have hread : digits1 (c :: (cs ++ rest)) = .ok (c :: cs, rest) := digits1_written h hrest.noDigit
    have hc := h.2 c List.mem_cons_self
    have hplus : c ≠ '+' := by
      rintro rfl
      cases hc
    have hminus : c ≠ '-' := by
      rintro rfl
      cases hc
    simp [exponent, hmark, hplus, hminus, hread]
  | plus hmark h => simp [exponent, hmark, digits1_written h hrest.noDigit]
  | minus hmark h => simp [exponent, hmark, digits1_written h hrest.noDigit]

theorem written_of_exponent {e : Option Int} (h : exponent s = .ok (e, rest)) :
    ∃ x, WrittenExponent e x ∧ s = x ++ rest := by
  unfold exponent at h
  split at h
  · next c r =>
    split at h
    · next hmark =>
      obtain ⟨⟨digits, r'⟩, hread, heq⟩ := bind_eq_ok.mp h
      cases heq
      split at hread <;> obtain ⟨hdigits, rfl⟩ := digits_of_digits1 hread
      · exact ⟨_, .plus hmark hdigits, rfl⟩
      · exact ⟨_, .minus hmark hdigits, rfl⟩
      · next hplus hminus => exact ⟨_, .bare hmark hdigits, rfl⟩
    · cases h
      exact ⟨[], .none, rfl⟩
  · cases h
    exact ⟨[], .none, rfl⟩

theorem isWhole_of_whole {digits : List Char} (h : whole s = .ok (digits, rest)) :
    IsWhole digits ∧ s = digits ++ rest := by
  unfold whole at h
  split at h
  · split at h
    · cases h
    · cases h
      exact ⟨isWhole_zero, rfl⟩
  · next hzero =>
    obtain ⟨hdigits, rfl⟩ := digits_of_digits1 h
    refine ⟨⟨hdigits.2, hdigits.1, ?_⟩, rfl⟩
    match digits, hdigits with
    | [c], _ =>
      by_cases hc : c = '0'
      · exact .inl (by rw [hc])
      · exact .inr (by simpa using hc)
    | c :: c' :: digits, _ =>
      refine .inr fun hc => hzero c' (digits ++ rest) ?_
      rw [Option.some.inj hc]
      rfl

theorem numeral_written {negative : Bool} {n : Numeral} {w : List Char} (h : WrittenNumeral negative n w)
    (hrest : Ends rest) : numeral negative (w ++ rest) = (.number n, some rest) := by
  obtain ⟨hbefore, hafter, hexponent⟩ := h
  obtain ⟨hdigit, hpoint⟩ := exponent_head hexponent hrest
  rw [List.append_assoc, List.append_assoc]
  refine numeral_eq (whole_append hbefore ?_) (fraction_written hafter hdigit hpoint) (exponent_written hexponent hrest)
  cases hafter with
  | none => exact hdigit
  | point _ => exact noDigit_point

theorem written_of_numeral {negative : Bool} {d : Draft} (h : numeral negative s = (d, some rest)) :
    ∃ n w, d = .number n ∧ WrittenNumeral negative n w ∧ s = w ++ rest := by
  unfold numeral at h
  dsimp only at h
  split at h
  · next hread =>
    cases h
    obtain ⟨⟨before, s₁⟩, hwhole, hread⟩ := bind_eq_ok.mp hread
    obtain ⟨⟨after, s₂⟩, hfraction, hread⟩ := bind_eq_ok.mp hread
    obtain ⟨⟨e, s₃⟩, hexponent, hread⟩ := bind_eq_ok.mp hread
    cases hread
    obtain ⟨hbefore, rfl⟩ := isWhole_of_whole hwhole
    obtain ⟨f, hafter, rfl⟩ := written_of_fraction hfraction
    obtain ⟨x, he, rfl⟩ := written_of_exponent hexponent
    exact ⟨_, _, rfl, .mk hbefore hafter he, by simp⟩
  · cases h

/-! ### Texts in quotes -/

theorem quoted_written {ps : List Piece} {w : List Char} (h : WrittenPieces ps w) (rest : List Char) :
    quoted (w ++ '"' :: rest) = (⟨ps, none⟩, some rest) := by
  induction h with
  | nil => rfl
  | plain hquote hslash hc _ ih => rw [List.cons_append, quoted_plain _ hquote hslash hc, ih]
  | @escaped e c ps s he _ ih =>
    have hu : e ≠ 'u' := by
      rintro rfl
      cases he
    simp [quoted, he, ih]
  | code hn _ ih => simp only [List.cons_append, quoted, hn, ih]

theorem written_of_quoted {q : Quoted} (h : quoted s = (q, some rest)) :
    ∃ w, WrittenPieces q.pieces w ∧ q.flaw = none ∧ s = w ++ '"' :: rest := by
  fun_induction quoted s generalizing q with
  | case1 => cases h
  | case2 s =>
    cases h
    exact ⟨[], .nil, rfl, rfl⟩
  | case3 => cases h
  | case4 a b c d s n hcode q' rest hread ih =>
    cases h
    obtain ⟨w, hw, hflaw, rfl⟩ := ih hread
    exact ⟨_, .code hcode hw, hflaw, rfl⟩
  | case5 => cases h
  | case6 => cases h
  | case7 e s he c hescaped q' rest hread ih =>
    cases h
    obtain ⟨w, hw, hflaw, rfl⟩ := ih hread
    exact ⟨_, .escaped hescaped hw, hflaw, rfl⟩
  | case8 => cases h
  | case9 => cases h
  | case10 c s hquote hlast hcode hescape hcontrol q' rest hread ih =>
    cases h
    obtain ⟨w, hw, hflaw, rfl⟩ := ih hread
    have hslash : c ≠ '\\' := by
      intro hc
      cases w with
      | nil => exact hescape _ _ hc rfl
      | cons e w => exact hescape _ _ hc rfl
    exact ⟨_, .plain hquote hslash hcontrol hw, hflaw, rfl⟩

theorem flaw_of_quoted {q : Quoted} (h : quoted s = (q, none)) : q.flaw ≠ none := by
  fun_induction quoted s generalizing q with
  | case2 => cases h
  | case4 a b c d s n hcode q' rest hread ih =>
    cases h
    have hflaw : q'.flaw ≠ none := ih hread
    exact hflaw
  | case7 e s he c hescaped q' rest hread ih =>
    cases h
    have hflaw : q'.flaw ≠ none := ih hread
    exact hflaw
  | case10 c s hquote hlast hcode hescape hcontrol q' rest hread ih =>
    cases h
    have hflaw : q'.flaw ≠ none := ih hread
    exact hflaw
  | _ =>
    cases h
    simp

/-! ### Values -/

variable {fuel : Nat} {b : List Char}

theorem skipBlank_append (hb : Blank b) (s : List Char) : skipBlank (b ++ s) = skipBlank s :=
  List.dropWhile_append_of_pos hb

theorem value_blank (hb : Blank b) (s : List Char) : value fuel (b ++ s) = value fuel s := by
  cases fuel with
  | zero => rfl
  | succ fuel => simp only [value, skipBlank_append hb]

theorem next_blank (hb : Blank b) (close : Char) (s : List Char) : next close (b ++ s) = next close s := by
  simp only [next, skipBlank_append hb]

theorem ends_blank (hb : Blank b) (hrest : Ends rest) : Ends (b ++ rest) := by
  cases b with
  | nil => exact hrest
  | cons c b =>
    rintro _ ⟨⟩
    have hc := hb c List.mem_cons_self
    simp only [isBlank, Bool.or_eq_true, beq_iff_eq] at hc
    rcases hc with ((rfl | rfl) | rfl) | rfl <;> decide

theorem ends_colon : Ends (':' :: rest) := by
  rintro c ⟨⟩
  decide

theorem begins_written {d : Draft} {w : List Char} (h : Written d w) : Begins w := by
  cases h with
  | positive h =>
    obtain ⟨hbefore, -, -⟩ := h
    obtain ⟨c, cs, rfl⟩ := List.exists_cons_of_ne_nil hbefore.ne_nil
    exact begins_cons (starts_of_isDigit (hbefore.isDigit c List.mem_cons_self))
  | _ => exact begins_cons (by decide)

theorem value_bracket (hs : Begins s) :
    value (fuel + 1) ('[' :: s) = (.array (items fuel s).1 (items fuel s).2.1, (items fuel s).2.2) := by
  obtain ⟨c, s, rfl, hc⟩ := hs
  have hopen : skipBlank ('[' :: c :: s) = '[' :: c :: s := rfl
  simp only [value, hopen, skipBlank_cons hc]
  split
  · contradiction
  · next heq => exact absurd (List.cons.inj heq).1 hc.2.1
  · rfl

theorem value_brace (hs : Begins s) :
    value (fuel + 1) ('\x7b' :: s) =
      (.object (members fuel s).1 (members fuel s).2.1, (members fuel s).2.2) := by
  obtain ⟨c, s, rfl, hc⟩ := hs
  have hopen : skipBlank ('\x7b' :: c :: s) = '\x7b' :: c :: s := rfl
  simp only [value, hopen, skipBlank_cons hc]
  split
  · contradiction
  · next heq => exact absurd (List.cons.inj heq).1 hc.2.2
  · rfl

theorem value_bracket_blank (hb : Blank b) (s : List Char) :
    value (fuel + 1) ('[' :: (b ++ s)) = value (fuel + 1) ('[' :: s) := by
  have hopen (r : List Char) : skipBlank ('[' :: r) = '[' :: r := rfl
  simp only [value, hopen, skipBlank_append hb]

theorem value_brace_blank (hb : Blank b) (s : List Char) :
    value (fuel + 1) ('\x7b' :: (b ++ s)) = value (fuel + 1) ('\x7b' :: s) := by
  have hopen (r : List Char) : skipBlank ('\x7b' :: r) = '\x7b' :: r := rfl
  simp only [value, hopen, skipBlank_append hb]

theorem items_blank (hb : Blank b) (s : List Char) : items fuel (b ++ s) = items fuel s := by
  cases fuel with
  | zero => rfl
  | succ fuel => simp only [items, value_blank hb]

theorem members_blank (hb : Blank b) (s : List Char) : members fuel (b ++ s) = members fuel s := by
  cases fuel with
  | zero => rfl
  | succ fuel => simp only [members, value_blank hb]

section Steps
variable {r a a' : List Char} {d : Draft} {q : Quoted}

theorem items_closed (ha : Blank a) (h : value fuel s = (d, some (a ++ ']' :: rest))) :
    items (fuel + 1) s = ([d], none, some rest) := by
  rw [items, h]
  simp only [next_blank ha]
  rfl

theorem items_more (ha : Blank a) (h : value fuel s = (d, some (a ++ ',' :: r))) :
    items (fuel + 1) s = (d :: (items fuel r).1, (items fuel r).2) := by
  rw [items, h]
  simp only [next_blank ha]
  rfl

theorem members_closed (ha : Blank a) (hkey : value fuel s = (.text q, some (a ++ ':' :: r))) (ha' : Blank a')
    (h : value fuel r = (d, some (a' ++ '\x7d' :: rest))) :
    members (fuel + 1) s = ([(.text q, d)], none, some rest) := by
  have hcolon : skipBlank (':' :: r) = ':' :: r := rfl
  simp only [members, hkey, skipBlank_append ha, hcolon, h, next_blank ha']
  rfl

theorem members_more (ha : Blank a) (hkey : value fuel s = (.text q, some (a ++ ':' :: r))) (ha' : Blank a')
    {r' : List Char} (h : value fuel r = (d, some (a' ++ ',' :: r'))) :
    members (fuel + 1) s = ((.text q, d) :: (members fuel r').1, (members fuel r').2) := by
  have hcolon : skipBlank (':' :: r) = ':' :: r := rfl
  simp only [members, hkey, skipBlank_append ha, hcolon, h, next_blank ha']
  rfl

end Steps

theorem exists_begins_padded {d : Draft} {w : List Char} (h : Padded d w) : ∃ b s, Blank b ∧ Begins s ∧ w = b ++ s := by
  obtain ⟨hb, hw, -⟩ := h
  exact ⟨_, _, hb, (begins_written hw).append _, rfl⟩

theorem length_padded {d : Draft} {w : List Char} (h : Padded d w) : 0 < w.length := by
  obtain ⟨b, s, -, ⟨c, r, rfl, -⟩, rfl⟩ := exists_begins_padded h
  simp

theorem exists_begins_items {ds : List Draft} {w : List Char} (h : WrittenItems ds w) :
    ∃ b s, Blank b ∧ Begins s ∧ w = b ++ s := by
  cases h with
  | last h => exact exists_begins_padded h
  | cons h _ =>
    obtain ⟨b, s, hb, hs, rfl⟩ := exists_begins_padded h
    exact ⟨b, _, hb, hs.append _, List.append_assoc ..⟩

theorem exists_begins_members {ms : List (Draft × Draft)} {w : List Char} (h : WrittenMembers ms w) :
    ∃ b s, Blank b ∧ Begins s ∧ w = b ++ s := by
  cases h with
  | last hk _ =>
    obtain ⟨b, s, hb, hs, rfl⟩ := exists_begins_padded hk
    exact ⟨b, _, hb, hs.append _, List.append_assoc ..⟩
  | cons hk _ _ =>
    obtain ⟨b, s, hb, hs, rfl⟩ := exists_begins_padded hk
    exact ⟨b, _, hb, hs.append _, List.append_assoc ..⟩

theorem exists_fuel {s : List Char} {fuel : Nat} (hs : Begins s) (hfuel : 2 * s.length ≤ fuel + 1) :
    ∃ f, fuel = f + 1 := by
  obtain ⟨c, r, rfl, -⟩ := hs
  rw [List.length_cons] at hfuel
  exact ⟨fuel - 1, by omega⟩

mutual

/-- What is written is read as its draft, and what follows is left. -/
theorem value_written : ∀ {d : Draft} {w : List Char}, Written d w → ∀ {fuel : Nat} {rest : List Char}, Ends rest →
    2 * w.length ≤ fuel + 1 → value fuel (w ++ rest) = (d, some rest)
  | d, w, h, fuel, rest, hrest, hfuel => by
    obtain ⟨fuel, rfl⟩ := exists_fuel (begins_written h) hfuel
    match h with
    | .null => rfl
    | .yes => rfl
    | .no => rfl
    | .positive h => exact value_numeral (numeral_written h hrest)
    | .negative h => exact value_minus.trans (numeral_written h hrest)
    | .text h =>
      rw [List.cons_append, List.append_assoc, value_quote, List.singleton_append, quoted_written h]
    | .emptyArray hb =>
      rw [List.cons_append, List.append_assoc, value_bracket_blank hb]
      rfl
    | @Written.array ds w h =>
      simp only [List.length_cons, List.length_append, List.length_nil] at hfuel
      have hread : items fuel (w ++ ']' :: rest) = (ds, none, some rest) := items_written h (by omega)
      obtain ⟨b, s, hb, hs, rfl⟩ := exists_begins_items h
      rw [List.append_assoc, items_blank hb] at hread
      rw [List.cons_append, List.append_assoc, List.append_assoc, List.singleton_append, value_bracket_blank hb,
        value_bracket (hs.append _), hread]
    | .emptyObject hb =>
      rw [List.cons_append, List.append_assoc, value_brace_blank hb]
      rfl
    | @Written.object ms w h =>
      simp only [List.length_cons, List.length_append, List.length_nil] at hfuel
      have hread : members fuel (w ++ '\x7d' :: rest) = (ms, none, some rest) := members_written h (by omega)
      obtain ⟨b, s, hb, hs, rfl⟩ := exists_begins_members h
      rw [List.append_assoc, members_blank hb] at hread
      rw [List.cons_append, List.append_assoc, List.append_assoc, List.singleton_append, value_brace_blank hb,
        value_brace (hs.append _), hread]

theorem value_padded : ∀ {d : Draft} {w : List Char}, Padded d w → ∀ {fuel : Nat} {rest : List Char}, Ends rest →
    2 * w.length ≤ fuel + 1 → ∃ a, Blank a ∧ value fuel (w ++ rest) = (d, some (a ++ rest))
  | _, _, @Padded.mk d b w a hb h ha, fuel, rest, hrest, hfuel => by
    simp only [List.length_append] at hfuel
    refine ⟨a, ha, ?_⟩
    rw [List.append_assoc, value_blank hb, List.append_assoc]
    exact value_written h (ends_blank ha hrest) (by omega)

theorem items_written : ∀ {ds : List Draft} {w : List Char}, WrittenItems ds w → ∀ {fuel : Nat} {rest : List Char},
    2 * w.length ≤ fuel → items fuel (w ++ ']' :: rest) = (ds, none, some rest)
  | _, _, @WrittenItems.last d w h, fuel, rest, hfuel => by
    have hpos := length_padded h
    obtain ⟨fuel, rfl⟩ : ∃ f, fuel = f + 1 := ⟨fuel - 1, by omega⟩
    have hends : Ends (']' :: rest) := ends_bracket
    obtain ⟨a, ha, hread⟩ := value_padded h hends hfuel
    exact items_closed ha hread
  | _, _, @WrittenItems.cons d ds w r h hr, fuel, rest, hfuel => by
    simp only [List.length_append, List.length_cons] at hfuel
    obtain ⟨fuel, rfl⟩ : ∃ f, fuel = f + 1 := ⟨fuel - 1, by omega⟩
    have hends : Ends (',' :: (r ++ ']' :: rest)) := ends_comma
    have hlength : 2 * w.length ≤ fuel + 1 := by omega
    obtain ⟨a, ha, hread⟩ := value_padded h hends hlength
    rw [List.append_assoc, List.cons_append, items_more ha hread, items_written hr (by omega)]

theorem members_written : ∀ {ms : List (Draft × Draft)} {w : List Char}, WrittenMembers ms w →
    ∀ {fuel : Nat} {rest : List Char}, 2 * w.length ≤ fuel →
      members fuel (w ++ '\x7d' :: rest) = (ms, none, some rest)
  | _, _, @WrittenMembers.last q d k w hk h, fuel, rest, hfuel => by
    simp only [List.length_append, List.length_cons] at hfuel
    obtain ⟨fuel, rfl⟩ : ∃ f, fuel = f + 1 := ⟨fuel - 1, by omega⟩
    have hkeyEnds : Ends (':' :: (w ++ '\x7d' :: rest)) := ends_colon
    have hends : Ends ('\x7d' :: rest) := ends_brace
    have hlength : 2 * k.length ≤ fuel + 1 ∧ 2 * w.length ≤ fuel + 1 := by omega
    obtain ⟨a, ha, hkey⟩ := value_padded hk hkeyEnds hlength.1
    obtain ⟨a', ha', hread⟩ := value_padded h hends hlength.2
    rw [List.append_assoc, List.cons_append]
    exact members_closed ha hkey ha' hread
  | _, _, @WrittenMembers.cons q d ms k w r hk h hr, fuel, rest, hfuel => by
    simp only [List.length_append, List.length_cons] at hfuel
    obtain ⟨fuel, rfl⟩ : ∃ f, fuel = f + 1 := ⟨fuel - 1, by omega⟩
    have hkeyEnds : Ends (':' :: (w ++ ',' :: (r ++ '\x7d' :: rest))) := ends_colon
    have hends : Ends (',' :: (r ++ '\x7d' :: rest)) := ends_comma
    have hlength : 2 * k.length ≤ fuel + 1 ∧ 2 * w.length ≤ fuel + 1 := by omega
    obtain ⟨a, ha, hkey⟩ := value_padded hk hkeyEnds hlength.1
    obtain ⟨a', ha', hread⟩ := value_padded h hends hlength.2
    rw [List.append_assoc, List.cons_append, List.append_assoc, List.cons_append,
      members_more ha hkey ha' hread, members_written hr (by omega)]

end

/-! ### What is read was written -/

theorem exists_blank (s : List Char) : ∃ b, Blank b ∧ s = b ++ skipBlank s :=
  ⟨s.takeWhile isBlank, List.all_eq_true.mp List.all_takeWhile, List.takeWhile_append_dropWhile.symm⟩

theorem next_more_eq {close : Char} {r : List Char} (h : next close s = .more r) : skipBlank s = ',' :: r := by
  unfold next at h
  split at h
  · cases h
  · next hs =>
    split at h
    · cases h
    · split at h
      · next hc =>
        cases h
        rw [hs, hc]
      · cases h

theorem padded_blank {d : Draft} {w : List Char} (hb : Blank b) (h : Padded d w) : Padded d (b ++ w) := by
  obtain ⟨hb', hw, ha⟩ := h
  rw [← List.append_assoc]
  exact .mk (List.forall_mem_append.mpr ⟨hb, hb'⟩) hw ha

theorem writtenItems_blank {ds : List Draft} {w : List Char} (hb : Blank b) (h : WrittenItems ds w) :
    WrittenItems ds (b ++ w) := by
  cases h with
  | last h => exact .last (padded_blank hb h)
  | cons h hr =>
    rw [← List.append_assoc]
    exact .cons (padded_blank hb h) hr

theorem writtenMembers_blank {ms : List (Draft × Draft)} {w : List Char} (hb : Blank b) (h : WrittenMembers ms w) :
    WrittenMembers ms (b ++ w) := by
  cases h with
  | last hk h =>
    rw [← List.append_assoc]
    exact .last (padded_blank hb hk) h
  | cons hk h hr =>
    rw [← List.append_assoc]
    exact .cons (padded_blank hb hk) h hr

theorem word_eq_some {d d' : Draft} {expected : List Char} (h : word d expected s = (d', some rest)) :
    d' = d ∧ s = expected ++ rest := by
  fun_induction word d expected s with
  | case1 s =>
    cases h
    exact ⟨rfl, rfl⟩
  | case2 => cases h
  | case3 expected c s ih =>
    obtain ⟨rfl, rfl⟩ := ih h
    exact ⟨rfl, rfl⟩
  | case4 => cases h

mutual

theorem written_of_value : ∀ (fuel : Nat) {s : List Char} {d : Draft} {rest : List Char},
    value fuel s = (d, some rest) → ∃ b w, Blank b ∧ Written d w ∧ s = b ++ (w ++ rest)
  | 0, _, _, _, h => by cases h
  | fuel + 1, s, d, rest, h => by
    obtain ⟨b, hb, hs⟩ := exists_blank s
    suffices hw : ∃ w, Written d w ∧ skipBlank s = w ++ rest by
      obtain ⟨w, hw, heq⟩ := hw
      exact ⟨b, w, hb, hw, heq ▸ hs⟩
    rw [value] at h
    generalize skipBlank s = t at h
    split at h
    · cases h
    · obtain ⟨rfl, rfl⟩ := word_eq_some h
      exact ⟨_, .null, rfl⟩
    · obtain ⟨rfl, rfl⟩ := word_eq_some h
      exact ⟨_, .yes, rfl⟩
    · obtain ⟨rfl, rfl⟩ := word_eq_some h
      exact ⟨_, .no, rfl⟩
    · next r =>
      generalize hq : quoted r = read at h
      obtain ⟨⟨pieces, flaw⟩, o⟩ := read
      cases h
      obtain ⟨w, hw, hflaw, rfl⟩ := written_of_quoted hq
      cases hflaw
      exact ⟨_, .text hw, by simp⟩
    · obtain ⟨n, w, rfl, hw, rfl⟩ := written_of_numeral h
      exact ⟨_, .negative hw, rfl⟩
    · next r =>
      obtain ⟨b', hb', hr⟩ := exists_blank r
      generalize skipBlank r = r' at h hr
      subst hr
      split at h
      · cases h
      · cases h
        exact ⟨_, .emptyArray hb', by simp⟩
      · generalize hread : items fuel r' = read at h
        obtain ⟨ds, flaw, o⟩ := read
        cases h
        obtain ⟨rfl, w, hw, rfl⟩ := written_of_items fuel hread
        exact ⟨_, .array (writtenItems_blank hb' hw), by simp⟩
    · next r =>
      obtain ⟨b', hb', hr⟩ := exists_blank r
      generalize skipBlank r = r' at h hr
      subst hr
      split at h
      · cases h
      · cases h
        exact ⟨_, .emptyObject hb', by simp⟩
      · generalize hread : members fuel r' = read at h
        obtain ⟨ms, flaw, o⟩ := read
        cases h
        obtain ⟨rfl, w, hw, rfl⟩ := written_of_members fuel hread
        exact ⟨_, .object (writtenMembers_blank hb' hw), by simp⟩
    · split at h
      · obtain ⟨n, w, rfl, hw, heq⟩ := written_of_numeral h
        exact ⟨w, .positive hw, heq⟩
      · cases h

theorem written_of_items : ∀ (fuel : Nat) {s : List Char} {ds : List Draft} {flaw : Option Flaw} {rest : List Char},
    items fuel s = (ds, flaw, some rest) → flaw = none ∧ ∃ w, WrittenItems ds w ∧ s = w ++ ']' :: rest
  | 0, _, _, _, _, h => by cases h
  | fuel + 1, s, ds, flaw, rest, h => by
    rw [items] at h
    split at h
    · cases h
    · next d r hvalue =>
      obtain ⟨b, w, hb, hw, rfl⟩ := written_of_value fuel hvalue
      obtain ⟨a, ha, hr⟩ := exists_blank r
      split at h
      · next r' hnext =>
        cases h
        rw [next_closed hnext] at hr
        subst hr
        exact ⟨rfl, _, .last (.mk hb hw ha), by simp⟩
      · cases h
      · next r' hnext =>
        rw [next_more_eq hnext] at hr
        subst hr
        generalize hread : items fuel r' = read at h
        obtain ⟨ds, flaw, o⟩ := read
        cases h
        obtain ⟨rfl, w', hw', rfl⟩ := written_of_items fuel hread
        exact ⟨rfl, _, .cons (.mk hb hw ha) hw', by simp⟩

theorem written_of_members : ∀ (fuel : Nat) {s : List Char} {ms : List (Draft × Draft)} {flaw : Option Flaw}
    {rest : List Char}, members fuel s = (ms, flaw, some rest) →
      flaw = none ∧ ∃ w, WrittenMembers ms w ∧ s = w ++ '\x7d' :: rest
  | 0, _, _, _, _, h => by cases h
  | fuel + 1, s, ds, flaw, rest, h => by
    rw [members] at h
    split at h
    · next q r hkey =>
      obtain ⟨b, k, hb, hk, rfl⟩ := written_of_value fuel hkey
      obtain ⟨a, ha, hr⟩ := exists_blank r
      generalize skipBlank r = t at h hr
      subst hr
      split at h
      · cases h
      · next r =>
        split at h
        · cases h
        · next d r hvalue =>
          obtain ⟨b', w, hb', hw, rfl⟩ := written_of_value fuel hvalue
          obtain ⟨a', ha', hr⟩ := exists_blank r
          split at h
          · next r' hnext =>
            cases h
            rw [next_closed hnext] at hr
            subst hr
            exact ⟨rfl, _, .last (.mk hb hk ha) (.mk hb' hw ha'), by simp⟩
          · cases h
          · next r' hnext =>
            rw [next_more_eq hnext] at hr
            subst hr
            generalize hread : members fuel r' = read at h
            obtain ⟨ms, flaw, o⟩ := read
            cases h
            obtain ⟨rfl, w', hw', rfl⟩ := written_of_members fuel hread
            exact ⟨rfl, _, .cons (.mk hb hk ha) (.mk hb' hw ha') hw', by simp⟩
      · cases h
    · cases h

end

/-! ### Flaws -/

/-- A draft without a flaw. -/
def Sound (d : Draft) : Prop := d.skip = .ok ()

theorem check_eq_ok {flaw : Option Flaw} : Reading.check flaw = .ok () ↔ flaw = none := by
  cases flaw with
  | none => exact ⟨fun _ => rfl, fun _ => rfl⟩
  | some f =>
    constructor
    · intro h
      cases h
    · intro h
      cases h

theorem bind_eq_ok_unit {x y : Reading Unit} : (x >>= fun _ => y) = .ok () ↔ x = .ok () ∧ y = .ok () := by
  rw [bind_eq_ok]
  exact ⟨fun ⟨_, hx, hy⟩ => ⟨hx, hy⟩, fun ⟨hx, hy⟩ => ⟨(), hx, hy⟩⟩

theorem sound_text {q : Quoted} : Sound (.text q) ↔ q.flaw = none := check_eq_ok

theorem skipItems_eq_ok {items : List Draft} : skipItems items = .ok () ↔ ∀ d ∈ items, Sound d := by
  induction items with
  | nil => exact ⟨fun _ _ h => (by cases h), fun _ => rfl⟩
  | cons d items ih => rw [skipItems, bind_eq_ok_unit, ih, List.forall_mem_cons, Sound]

theorem skipMembers_eq_ok {members : List (Draft × Draft)} :
    skipMembers members = .ok () ↔ ∀ m ∈ members, (∃ q, m.1 = .text q ∧ q.flaw = none) ∧ Sound m.2 := by
  induction members with
  | nil => exact ⟨fun _ _ h => (by cases h), fun _ => rfl⟩
  | cons m members ih =>
    obtain ⟨key, d⟩ := m
    rw [List.forall_mem_cons, ← ih]
    cases key with
    | text q =>
      rw [skipMembers, bind_eq_ok_unit, bind_eq_ok_unit, check_eq_ok, ← and_assoc]
      simp [Sound]
    | _ =>
      constructor
      · intro h
        cases h
      · rintro ⟨⟨⟨q, hq, -⟩, -⟩, -⟩
        cases hq

theorem sound_array {items : List Draft} {flaw : Option Flaw} :
    Sound (.array items flaw) ↔ (∀ d ∈ items, Sound d) ∧ flaw = none := by
  rw [Sound, skip, bind_eq_ok_unit, skipItems_eq_ok, check_eq_ok]

theorem sound_object {members : List (Draft × Draft)} {flaw : Option Flaw} :
    Sound (.object members flaw) ↔
      (∀ m ∈ members, (∃ q, m.1 = .text q ∧ q.flaw = none) ∧ Sound m.2) ∧ flaw = none := by
  rw [Sound, skip, bind_eq_ok_unit, skipMembers_eq_ok, check_eq_ok]

theorem word_eq_none {d d' : Draft} {expected : List Char} (h : word d expected s = (d', none)) : ¬Sound d' := by
  fun_induction word d expected s with
  | case1 => cases h
  | case2 =>
    cases h
    rintro ⟨⟩
  | case3 expected c s ih => exact ih h
  | case4 =>
    cases h
    rintro ⟨⟩

theorem Stuck.not_sound {d : Draft} (h : Stuck d) : ¬Sound d := by
  rcases h with rfl | ⟨flaw, rfl⟩ <;> rintro ⟨⟩

theorem numeral_eq_none {negative : Bool} {d : Draft} (h : numeral negative s = (d, none)) : ¬Sound d := by
  rcases numeral_cases negative s with ⟨n, rest, hread⟩ | ⟨d', hread, hstuck⟩
  · rw [hread] at h
    cases h
  · rw [hread] at h
    cases h
    exact hstuck.not_sound

mutual

/-- A draft after which no text is left has a flaw. -/
theorem not_sound_value : ∀ (fuel : Nat) {s : List Char} {d : Draft}, value fuel s = (d, none) → ¬Sound d
  | 0, _, _, h => by
    cases h
    rintro ⟨⟩
  | fuel + 1, s, d, h => by
    rw [value] at h
    generalize skipBlank s = t at h
    split at h
    · cases h
      rintro ⟨⟩
    · exact word_eq_none h
    · exact word_eq_none h
    · exact word_eq_none h
    · next r =>
      generalize hq : quoted r = read at h
      obtain ⟨q, o⟩ := read
      cases h
      exact fun hsound => flaw_of_quoted hq (sound_text.mp hsound)
    · exact numeral_eq_none h
    · next r =>
      generalize skipBlank r = r' at h
      split at h
      · cases h
        exact fun hsound => by cases (sound_array.mp hsound).2
      · cases h
      · generalize hread : items fuel r' = read at h
        obtain ⟨ds, flaw, o⟩ := read
        cases h
        exact fun hsound => not_sound_items fuel hread (sound_array.mp hsound)
    · next r =>
      generalize skipBlank r = r' at h
      split at h
      · cases h
        exact fun hsound => by cases (sound_object.mp hsound).2
      · cases h
      · generalize hread : members fuel r' = read at h
        obtain ⟨ms, flaw, o⟩ := read
        cases h
        intro hsound
        obtain ⟨hmembers, hflaw⟩ := sound_object.mp hsound
        exact not_sound_members fuel hread ⟨fun m hm => (hmembers m hm).2, hflaw⟩
    · split at h
      · exact numeral_eq_none h
      · cases h
        rintro ⟨⟩

theorem not_sound_items : ∀ (fuel : Nat) {s : List Char} {ds : List Draft} {flaw : Option Flaw},
    items fuel s = (ds, flaw, none) → ¬((∀ d ∈ ds, Sound d) ∧ flaw = none)
  | 0, _, _, _, h => by
    cases h
    rintro ⟨-, ⟨⟩⟩
  | fuel + 1, s, ds, flaw, h => by
    rw [items] at h
    split at h
    · next d hvalue =>
      cases h
      rintro ⟨hsound, -⟩
      exact not_sound_value fuel hvalue (hsound d List.mem_cons_self)
    · split at h
      · cases h
      · cases h
        rintro ⟨-, ⟨⟩⟩
      · next r _ =>
        generalize hread : items fuel r = read at h
        obtain ⟨ds, flaw, o⟩ := read
        cases h
        rintro ⟨hsound, hflaw⟩
        exact not_sound_items fuel hread ⟨(List.forall_mem_cons.mp hsound).2, hflaw⟩

theorem not_sound_members : ∀ (fuel : Nat) {s : List Char} {ms : List (Draft × Draft)} {flaw : Option Flaw},
    members fuel s = (ms, flaw, none) → ¬((∀ m ∈ ms, Sound m.2) ∧ flaw = none)
  | 0, _, _, _, h => by
    cases h
    rintro ⟨-, ⟨⟩⟩
  | fuel + 1, s, ms, flaw, h => by
    have hbroken {key d : Draft} (hd : ¬Sound d) {flaw : Option Flaw} :
        ¬((∀ m ∈ [(key, d)], Sound m.2) ∧ flaw = none) :=
      fun hsound => hd (hsound.1 (key, d) List.mem_cons_self)
    rw [members] at h
    split at h
    · split at h
      · cases h
        exact hbroken (by rintro ⟨⟩)
      · split at h
        · next d hvalue =>
          cases h
          exact hbroken (not_sound_value fuel hvalue)
        · split at h
          · cases h
          · cases h
            rintro ⟨-, ⟨⟩⟩
          · next r _ =>
            generalize hread : members fuel r = read at h
            obtain ⟨ms, flaw, o⟩ := read
            cases h
            rintro ⟨hsound, hflaw⟩
            exact not_sound_members fuel hread ⟨(List.forall_mem_cons.mp hsound).2, hflaw⟩
      · cases h
        exact hbroken (by rintro ⟨⟩)
    · cases h
      exact hbroken (by rintro ⟨⟩)

end

/-! ### Whole texts -/

theorem skipBlank_eq_nil : skipBlank s = [] ↔ Blank s := List.dropWhile_eq_nil_iff

/-- The draft of a whole text is the value that is written there. -/
theorem padded_iff {d : Draft} : Padded d s ↔ ∃ a, Blank a ∧ ofText s = (d, some a) := by
  constructor
  · intro h
    obtain ⟨a, ha, hread⟩ := value_padded h ends_nil (Nat.le_add_right (2 * s.length) 3)
    rw [List.append_nil, List.append_nil] at hread
    exact ⟨a, ha, hread⟩
  · rintro ⟨a, ha, hread⟩
    obtain ⟨b, w, hb, hw, rfl⟩ := written_of_value _ hread
    exact .mk hb hw ha

end Draft

namespace Form
variable {α : Type} {form : Form α} {text : String}

/-- What is read from a text is read from its draft. -/
theorem read_padded {d : Draft} (h : Padded d text.toList) : form.read text = form.direct maxDepth d := by
  obtain ⟨a, ha, hread⟩ := padded_iff.mp h
  simp only [Form.read, hread, Option.map_some, skipBlank_eq_nil.mpr ha]
  exact bind_pure _

/-- A text that holds data is written in full, if the data is read from sound drafts only. -/
theorem padded_of_read {a : α} (hsound : ∀ {room : Nat} {d : Draft} {a : α}, form.direct room d = .ok a → Sound d)
    (h : form.read text = .ok a) : ∃ d, Padded d text.toList := by
  rw [Form.read] at h
  generalize hread : ofText text.toList = read at h
  obtain ⟨d, o⟩ := read
  obtain ⟨b, hdirect, h⟩ := bind_eq_ok.mp h
  cases o with
  | none => exact absurd (hsound hdirect) (not_sound_value _ hread)
  | some rest =>
    refine ⟨d, padded_iff.mpr ⟨rest, skipBlank_eq_nil.mp ?_, hread⟩⟩
    simp only [Option.map_some] at h
    split at h
    · cases h
    · next hrest =>
      cases hskip : skipBlank rest with
      | nil => rfl
      | cons c r => exact absurd (congrArg some hskip) (hrest c r)

end Form

end DirectorySearch.Json
