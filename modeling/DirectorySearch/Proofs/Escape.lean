import DirectorySearch.Filter.Token
import DirectorySearch.Proofs.Utf8

/-! Written values. A word is a text of plain characters and escapes, which a reader takes up to the
    first character that is neither. Escaping gives a word, and unescaping gives the text back. Unescaping goes octet
    by octet, and comes to the same as going character by character. -/

namespace DirectorySearch

/-! ### Unescaping -/

namespace Escape

open Token (isPlain)

theorem escapeChar_of_plain {c : Char} (h : isPlain c = true) : escapeChar c = [c] := by
  simp only [isPlain, Bool.and_eq_true, bne_iff_ne] at h
  obtain ⟨⟨⟨⟨h1, h2⟩, h3⟩, h4⟩, h5⟩ := h
  unfold escapeChar
  split <;> first | contradiction | rfl

/-- A character that is not plain is written as the two digits of its octet. -/
theorem escapeChar_of_not_plain {c : Char} (h : isPlain c = false) :
    ∃ a b octet, escapeChar c = ['\\', a, b] ∧ octet? a b = some octet ∧ Utf8.encodeChar c = [octet] := by
  simp only [isPlain, Bool.and_eq_false_iff, bne_eq_false_iff_eq] at h
  rcases h with (((rfl | rfl) | rfl) | rfl) | rfl
  · exact ⟨'2', '8', 0x28, rfl, by decide, by decide⟩
  · exact ⟨'2', '9', 0x29, rfl, by decide, by decide⟩
  · exact ⟨'2', 'a', 0x2A, rfl, by decide, by decide⟩
  · exact ⟨'5', 'c', 0x5C, rfl, by decide, by decide⟩
  · exact ⟨'0', '0', 0x00, rfl, by decide, by decide⟩

theorem ne_backslash_of_plain {c : Char} (h : isPlain c = true) : c ≠ '\\' := by
  rintro rfl
  exact absurd h (by decide)

/-- The octets of a written value, character by character: an escape gives its octet, any other character its own. -/
def octets? : List Char → Option (List UInt8)
  | [] => some []
  | '\\' :: a :: b :: r => do
    let octet ← octet? a b
    return octet :: (← octets? r)
  | '\\' :: _ => none
  | c :: r => do return Utf8.encodeChar c ++ (← octets? r)

theorem octets?_escape {a b : Char} {octet : UInt8} (h : octet? a b = some octet) (r : List Char) :
    octets? ('\\' :: a :: b :: r) = (octets? r).map (octet :: ·) := by
  simp only [octets?, h]
  cases octets? r <;> rfl

theorem octets?_cons {c : Char} (h : c ≠ '\\') (r : List Char) :
    octets? (c :: r) = (octets? r).map (Utf8.encodeChar c ++ ·) := by
  rw [octets?]
  · cases octets? r <;> rfl
  · intro a b r' hc
    exact absurd hc h
  · exact h

/-! ### Octet by octet

The octets of a value are gone through one by one. Those of a character that stands for itself have no backslash among
them; and two octets that are digits are two characters, whatever stands around them. -/

theorem toNat_lt_of_value? {c : Char} {n : Nat} (h : Hex.value? c = some n) : c.toNat < 0x80 := by
  have hle {d : Char} (hd : d.toNat < 0x80) (hc : c ≤ d) : c.toNat < 0x80 :=
    Nat.lt_of_le_of_lt (UInt32.le_iff_toNat_le.mp (Char.le_def.mp hc)) hd
  unfold Hex.value? at h
  split at h
  · next hdigit => exact hle (by decide) hdigit.2
  split at h
  · next hlower => exact hle (by decide) hlower.2
  split at h
  · next hupper => exact hle (by decide) hupper.2
  · cases h

/-- An octet that is a digit is a character of its own. -/
theorem eq_cons_of_value? {t : List Char} {x : UInt8} {o : List UInt8} {n : Nat} (ht : Utf8.encode t = x :: o)
    (h : Hex.value? (.ofNat x.toNat) = some n) : ∃ r, t = .ofNat x.toNat :: r ∧ Utf8.encode r = o := by
  have hx : x.toNat < 0x80 := by
    rw [← Utf8.toNat_of_scalar? (Utf8.scalar?_ofNat x)]
    exact toNat_lt_of_value? h
  apply Utf8.encode_eq_encodeChar_append
  rw [ht, Utf8.encodeChar_one hx (Utf8.scalar?_ofNat x), List.singleton_append]

/-- Two octets that spell one are two characters of their own. -/
theorem eq_cons_of_octet? {t : List Char} {x y octet : UInt8} {o : List UInt8} (ht : Utf8.encode t = x :: y :: o)
    (h : octet? (.ofNat x.toNat) (.ofNat y.toNat) = some octet) :
    ∃ r, t = .ofNat x.toNat :: .ofNat y.toNat :: r ∧ Utf8.encode r = o := by
  obtain ⟨m, hm, h⟩ := Option.bind_eq_some_iff.mp h
  obtain ⟨n, hn, -⟩ := Option.bind_eq_some_iff.mp h
  obtain ⟨t, rfl, htail⟩ := eq_cons_of_value? ht hm
  obtain ⟨r, rfl, hr⟩ := eq_cons_of_value? htail hn
  exact ⟨r, rfl, hr⟩

theorem encodeChar_of_value? {c : Char} {n : Nat} (h : Hex.value? c = some n) :
    ∃ x, Utf8.encodeChar c = [x] ∧ Char.ofNat x.toNat = c := by
  have hc := toNat_lt_of_value? h
  refine ⟨.ofNat c.toNat, by rw [Utf8.encodeChar, if_pos hc], ?_⟩
  rw [Utf8.toNat_ofNat_of_lt (by omega), Char.ofNat_toNat]

theorem unescapeOctets?_pair {x y octet : UInt8} (h : octet? (.ofNat x.toNat) (.ofNat y.toNat) = some octet)
    {o : List UInt8} (hfirst : Utf8.isBoundary (x :: y :: o) = true) (hlast : Utf8.isBoundary o = true) :
    unescapeOctets? (0x5C :: x :: y :: o) = (unescapeOctets? o).map (octet :: ·) := by
  rw [unescapeOctets?, if_pos rfl, if_pos ⟨hfirst, hlast⟩, h]
  cases unescapeOctets? o <;> rfl

theorem unescapeOctets?_cons {x : UInt8} (h : x ≠ 0x5C) (r : List UInt8) :
    unescapeOctets? (x :: r) = (unescapeOctets? r).map (x :: ·) := by
  rw [unescapeOctets?.eq_def]
  simp only [if_neg h]
  cases unescapeOctets? r <;> rfl

/-- Behind a backslash, the octets of two digits are taken as the digits are. -/
theorem unescapeOctets?_digits {a b : Char} {octet : UInt8} (h : octet? a b = some octet) (r : List Char) :
    unescapeOctets? (Utf8.encode ('\\' :: a :: b :: r)) = (unescapeOctets? (Utf8.encode r)).map (octet :: ·) := by
  obtain ⟨m, hm, hlow⟩ := Option.bind_eq_some_iff.mp h
  obtain ⟨n, hn, -⟩ := Option.bind_eq_some_iff.mp hlow
  obtain ⟨x, hx, rfl⟩ := encodeChar_of_value? hm
  obtain ⟨y, hy, rfl⟩ := encodeChar_of_value? hn
  have htext : Utf8.encode (.ofNat x.toNat :: .ofNat y.toNat :: r) = x :: y :: Utf8.encode r := by
    rw [Utf8.encode_cons, Utf8.encode_cons, hx, hy]
    rfl
  have hfirst := Utf8.isBoundary_encode (.ofNat x.toNat :: .ofNat y.toNat :: r)
  rw [htext] at hfirst
  rw [Utf8.encode_cons, htext]
  exact unescapeOctets?_pair h hfirst (Utf8.isBoundary_encode r)

/-- Behind a backslash, octets that are not two digits are refused. -/
theorem unescapeOctets?_backslash {t : List Char} (h : ∀ a b r, t = a :: b :: r → octet? a b = none) :
    unescapeOctets? (Utf8.encode ('\\' :: t)) = none := by
  show unescapeOctets? (0x5C :: Utf8.encode t) = none
  rw [unescapeOctets?.eq_def]
  simp only [if_true]
  split
  · next x y o ht =>
    cases hoctet : octet? (.ofNat x.toNat) (.ofNat y.toNat) with
    | none => simp
    | some octet =>
      obtain ⟨r, hr, -⟩ := eq_cons_of_octet? ht hoctet
      rw [h _ _ r hr] at hoctet
      cases hoctet
  · rfl

theorem unescapeOctets?_append {o : List UInt8} (h : ∀ x ∈ o, x ≠ 0x5C) (r : List UInt8) :
    unescapeOctets? (o ++ r) = (unescapeOctets? r).map (o ++ ·) := by
  induction o with
  | nil => simp
  | cons x o ih =>
    rw [List.forall_mem_cons] at h
    rw [List.cons_append, unescapeOctets?_cons h.1, ih h.2, Option.map_map]
    rfl

theorem ne_backslash_of_encodeChar {c : Char} (hc : c ≠ '\\') : ∀ x ∈ Utf8.encodeChar c, x ≠ 0x5C := by
  obtain ⟨a, r, hchar, -, hlater⟩ := Utf8.encodeChar_eq_cons c
  rw [hchar, List.forall_mem_cons]
  constructor
  · rintro rfl
    have hencode : Utf8.encode [c] = Utf8.encodeChar '\\' ++ r := by
      rw [Utf8.encode_cons, hchar]
      simp [Utf8.encode, Utf8.encodeChar]
    obtain ⟨_, heq, -⟩ := Utf8.encode_eq_encodeChar_append hencode
    exact hc (List.cons.inj heq).1
  · rintro x hx rfl
    exact absurd (hlater _ hx) (by decide)

/-- Octet by octet, a value gives what it gives character by character. -/
theorem unescapeOctets?_encode (s : List Char) : unescapeOctets? (Utf8.encode s) = octets? s := by
  fun_induction octets? s with
  | case1 => rfl
  | case2 a b r ih =>
    cases hoctet : octet? a b with
    | none =>
      rw [unescapeOctets?_backslash]
      · rfl
      · rintro _ _ _ ⟨⟩
        exact hoctet
    | some octet =>
      rw [unescapeOctets?_digits hoctet, ih]
      cases octets? r <;> rfl
  | case3 r hr =>
    exact unescapeOctets?_backslash fun a b r' heq => absurd heq (hr a b r')
  | case4 c r _ hc ih =>
    rw [Utf8.encode_cons, unescapeOctets?_append (ne_backslash_of_encodeChar hc), ih]
    cases octets? r <;> rfl

theorem unescapeChars?_eq (s : List Char) : unescapeChars? s = (octets? s).bind Utf8.decode? := by
  rw [unescapeChars?, unescapeOctets?_encode]
  rfl

/-! ### Escaping -/

theorem octets?_escapeChar_append (c : Char) (r : List Char) :
    octets? (escapeChar c ++ r) = (octets? r).map (Utf8.encodeChar c ++ ·) := by
  cases h : isPlain c with
  | true =>
    rw [escapeChar_of_plain h, List.cons_append, List.nil_append, octets?_cons (ne_backslash_of_plain h)]
  | false =>
    obtain ⟨a, b, octet, he, ho, hu⟩ := escapeChar_of_not_plain h
    simp only [he, hu, List.cons_append, List.nil_append, octets?_escape ho]

theorem octets?_escapeChars (s : List Char) : octets? (escapeChars s) = some (Utf8.encode s) := by
  induction s with
  | nil => rfl
  | cons c r ih =>
    rw [escapeChars, List.flatMap_cons, octets?_escapeChar_append, ← escapeChars, ih, Option.map_some,
      Utf8.encode, Utf8.encode, List.flatMap_cons]

theorem unescapeChars?_escapeChars (s : List Char) : unescapeChars? (escapeChars s) = some s := by
  rw [unescapeChars?_eq, octets?_escapeChars, Option.bind_some, Utf8.decode?_encode]

theorem escapeChars_eq_nil {s : List Char} : escapeChars s = [] ↔ s = [] := by
  constructor
  · intro h
    have hs := unescapeChars?_escapeChars s
    rw [h] at hs
    exact (Option.some.inj hs).symm
  · rintro rfl
    rfl

end Escape

/-! ### Words -/

namespace Token

open Escape

/-- Plain characters and escapes. The empty text is such a word, though no value has it. -/
inductive Word : List Char → Prop where
  | nil : Word []
  | plain {c : Char} {r : List Char} (hc : isPlain c = true) (hr : Word r) : Word (c :: r)
  | escape {a b : Char} {r : List Char} (ho : (octet? a b).isSome = true) (hr : Word r) : Word ('\\' :: a :: b :: r)

theorem value_plain {c : Char} (h : isPlain c = true) (r : List Char) :
    value (c :: r) = (c :: (value r).1, (value r).2) := by
  rw [value]
  · rw [if_pos h]
  · intro a b r' hc
    exact absurd hc (ne_backslash_of_plain h)

theorem value_escape {a b : Char} (h : (octet? a b).isSome = true) (r : List Char) :
    value ('\\' :: a :: b :: r) = ('\\' :: a :: b :: (value r).1, (value r).2) := by
  rw [value, if_pos h]

/-- No value starts with a character that is neither plain nor a backslash. -/
theorem value_stop {c : Char} (h : isPlain c = false) (hc : c ≠ '\\') (r : List Char) :
    value (c :: r) = ([], c :: r) := by
  rw [value]
  · rw [if_neg (by rw [h]; exact Bool.false_ne_true)]
  · intro a b r' hc'
    exact absurd hc' hc

/-- A reader takes a word whole, and goes on after it. -/
theorem value_word_append {w : List Char} (hw : Word w) (rest : List Char) :
    value (w ++ rest) = (w ++ (value rest).1, (value rest).2) := by
  induction hw with
  | nil => rfl
  | plain hc _ ih => rw [List.cons_append, value_plain hc, ih, List.cons_append]
  | escape ho _ ih => simp only [List.cons_append, value_escape ho, ih]

theorem value_word_star {w : List Char} (hw : Word w) (rest : List Char) :
    value (w ++ '*' :: rest) = (w, '*' :: rest) := by
  rw [value_word_append hw, value_stop (by decide) (by decide), List.append_nil]

theorem value_word_close {w : List Char} (hw : Word w) (rest : List Char) :
    value (w ++ ')' :: rest) = (w, ')' :: rest) := by
  rw [value_word_append hw, value_stop (by decide) (by decide), List.append_nil]

/-- A word that is not empty does not start with a character that ends values. -/
theorem Word.head {c : Char} {r : List Char} (h : Word (c :: r)) : isPlain c = true ∨ c = '\\' := by
  cases h with
  | plain hc _ => exact Or.inl hc
  | escape _ _ => exact Or.inr rfl

theorem Word.append {v w : List Char} (hv : Word v) (hw : Word w) : Word (v ++ w) := by
  induction hv with
  | nil => exact hw
  | plain hc _ ih => exact .plain hc ih
  | escape ho _ ih => exact .escape ho ih

theorem word_escapeChar (c : Char) : Word (escapeChar c) := by
  cases h : isPlain c with
  | true =>
    rw [escapeChar_of_plain h]
    exact .plain h .nil
  | false =>
    obtain ⟨a, b, octet, he, ho, -⟩ := escapeChar_of_not_plain h
    rw [he]
    exact .escape (by rw [ho]; rfl) .nil

theorem word_escapeChars (s : List Char) : Word (escapeChars s) := by
  induction s with
  | nil => exact .nil
  | cons c r ih =>
    rw [escapeChars, List.flatMap_cons]
    exact (word_escapeChar c).append ih

end Token

end DirectorySearch
