import DirectorySearch.Text.Utf8

/-! Decoding undoes encoding: each of the four lengths is told by the first octet, and the shortest
    spelling of a code gives the code back. It accepts nothing else, and since the first octet of a character
    is none that can continue one, the octets of a character are found among those of a text only where the
    text has it. -/

namespace DirectorySearch.Utf8

theorem scalar?_toNat (c : Char) : scalar? c.toNat = some c := by
  have h : c.toNat.isValidChar := c.valid
  rw [scalar?, dif_pos h]
  rfl

theorem scalar?_ofNat (x : UInt8) : scalar? x.toNat = some (.ofNat x.toNat) := by
  have hvalid : x.toNat.isValidChar := by
    have := x.toNat_lt
    exact .inl (by omega)
  rw [scalar?, dif_pos hvalid, Char.ofNat, dif_pos hvalid]

theorem atLeast_toNat {low : Nat} {c : Char} (h : low ≤ c.toNat) : atLeast low c.toNat = some c := by
  rw [atLeast, if_pos h, scalar?_toNat]

theorem toNat_ofNat_of_lt {n : Nat} (h : n < 256) : (UInt8.ofNat n).toNat = n := by
  rw [UInt8.toNat_ofNat']
  exact Nat.mod_eq_of_lt h

/-- The octets after the first carry six bits each. -/
theorem continuation?_ofNat {n : Nat} (h : n < 64) : continuation? (.ofNat (0x80 + n)) = some n := by
  unfold continuation?
  rw [toNat_ofNat_of_lt (by omega), if_pos (by omega), Nat.add_sub_cancel_left]

theorem toNat_lt (c : Char) : c.toNat < 0x110000 := by
  rcases c.valid with h | ⟨-, h⟩
  · exact Nat.lt_trans h (by decide)
  · exact h

/-! ### What a first octet leads to -/

theorem decode?_one {a : UInt8} {c : Char} (ha : a.toNat < 0x80) (hc : scalar? a.toNat = some c) (r : List UInt8) :
    decode? (a :: r) = (decode? r).map (c :: ·) := by
  rw [decode?.eq_def]
  simp only
  rw [if_pos ha, hc]
  cases decode? r <;> rfl

theorem decode?_two {a b : UInt8} {x : Nat} {c : Char} (ha : 0xC0 ≤ a.toNat) (ha' : a.toNat < 0xE0)
    (hb : continuation? b = some x) (hc : atLeast 0x80 ((a.toNat - 0xC0) * 64 + x) = some c) (r : List UInt8) :
    decode? (a :: b :: r) = (decode? r).map (c :: ·) := by
  simp only [decode?]
  rw [if_neg (by omega), if_neg (by omega), if_pos ha', hb, Option.bind_eq_bind, Option.bind_some, hc]
  cases decode? r <;> rfl

theorem decode?_three {a b d : UInt8} {x y : Nat} {c : Char} (ha : 0xE0 ≤ a.toNat) (ha' : a.toNat < 0xF0)
    (hb : continuation? b = some x) (hd : continuation? d = some y)
    (hc : atLeast 0x800 ((a.toNat - 0xE0) * 4096 + x * 64 + y) = some c) (r : List UInt8) :
    decode? (a :: b :: d :: r) = (decode? r).map (c :: ·) := by
  simp only [decode?]
  rw [if_neg (by omega), if_neg (by omega), if_neg (by omega), if_pos ha', hb, hd, Option.bind_eq_bind,
    Option.bind_some, Option.bind_eq_bind, Option.bind_some, hc]
  cases decode? r <;> rfl

theorem decode?_four {a b d e : UInt8} {x y z : Nat} {c : Char} (ha : 0xF0 ≤ a.toNat) (ha' : a.toNat < 0xF8)
    (hb : continuation? b = some x) (hd : continuation? d = some y) (he : continuation? e = some z)
    (hc : atLeast 0x10000 ((a.toNat - 0xF0) * 262144 + x * 4096 + y * 64 + z) = some c) (r : List UInt8) :
    decode? (a :: b :: d :: e :: r) = (decode? r).map (c :: ·) := by
  simp only [decode?]
  rw [if_neg (by omega), if_neg (by omega), if_neg (by omega), if_neg (by omega), if_pos ha', hb, hd, he,
    Option.bind_eq_bind, Option.bind_some, Option.bind_eq_bind, Option.bind_some, Option.bind_eq_bind,
    Option.bind_some, hc]
  cases decode? r <;> rfl

/-! ### Round trip -/

theorem decode?_encodeChar_append (c : Char) (r : List UInt8) :
    decode? (encodeChar c ++ r) = (decode? r).map (c :: ·) := by
  have hlt := toNat_lt c
  unfold encodeChar
  -- One case for each number of octets; the quotients and remainders put the code together again.
  by_cases h1 : c.toNat < 0x80
  · simp only [h1, ↓reduceIte, List.cons_append, List.nil_append]
    apply decode?_one
    · rwa [toNat_ofNat_of_lt (by omega)]
    · rw [toNat_ofNat_of_lt (by omega), scalar?_toNat]
  by_cases h2 : c.toNat < 0x800
  · simp only [h1, h2, ↓reduceIte, List.cons_append, List.nil_append]
    have ha : (UInt8.ofNat (0xC0 + c.toNat / 64)).toNat = 0xC0 + c.toNat / 64 := toNat_ofNat_of_lt (by omega)
    apply decode?_two (by omega) (by omega) (continuation?_ofNat (by omega))
    have hcode : c.toNat / 64 * 64 + c.toNat % 64 = c.toNat := by omega
    rw [ha, Nat.add_sub_cancel_left, hcode]
    exact atLeast_toNat (Nat.le_of_not_lt h1)
  by_cases h3 : c.toNat < 0x10000
  · simp only [h1, h2, h3, ↓reduceIte, List.cons_append, List.nil_append]
    have ha : (UInt8.ofNat (0xE0 + c.toNat / 4096)).toNat = 0xE0 + c.toNat / 4096 := toNat_ofNat_of_lt (by omega)
    apply decode?_three (by omega) (by omega) (continuation?_ofNat (by omega)) (continuation?_ofNat (by omega))
    have hcode : c.toNat / 4096 * 4096 + c.toNat / 64 % 64 * 64 + c.toNat % 64 = c.toNat := by omega
    rw [ha, Nat.add_sub_cancel_left, hcode]
    exact atLeast_toNat (Nat.le_of_not_lt h2)
  · simp only [h1, h2, h3, ↓reduceIte, List.cons_append, List.nil_append]
    have ha : (UInt8.ofNat (0xF0 + c.toNat / 262144)).toNat = 0xF0 + c.toNat / 262144 :=
      toNat_ofNat_of_lt (by omega)
    apply decode?_four (by omega) (by omega) (continuation?_ofNat (by omega)) (continuation?_ofNat (by omega))
      (continuation?_ofNat (by omega))
    have hcode : c.toNat / 262144 * 262144 + c.toNat / 4096 % 64 * 4096 + c.toNat / 64 % 64 * 64 +
        c.toNat % 64 = c.toNat := by omega
    rw [ha, Nat.add_sub_cancel_left, hcode]
    exact atLeast_toNat (Nat.le_of_not_lt h3)

/-- The octets of a text spell that text. -/
theorem decode?_encode (s : List Char) : decode? (encode s) = some s := by
  induction s with
  | nil => rfl
  | cons c r ih => rw [encode, List.flatMap_cons, decode?_encodeChar_append, ← encode, ih, Option.map_some]

/-! ### Octets that spell a text -/

theorem toNat_of_scalar? {code : Nat} {c : Char} (h : scalar? code = some c) : c.toNat = code := by
  by_cases hcode : code.isValidChar
  · rw [scalar?, dif_pos hcode] at h
    cases h
    rfl
  · rw [scalar?, dif_neg hcode] at h
    cases h

theorem toNat_of_atLeast {low code : Nat} {c : Char} (h : atLeast low code = some c) : low ≤ code ∧ c.toNat = code := by
  unfold atLeast at h
  split at h
  · next hlow => exact ⟨hlow, toNat_of_scalar? h⟩
  · cases h

theorem ofNat_of_toNat {a : UInt8} {n : Nat} (h : a.toNat = n) : UInt8.ofNat n = a := by
  rw [← h, UInt8.ofNat_toNat]

theorem toNat_of_continuation? {b : UInt8} {x : Nat} (h : continuation? b = some x) : x < 64 ∧ b.toNat = 0x80 + x := by
  unfold continuation? at h
  split at h
  · next hb =>
    have hx := Option.some.inj h
    omega
  · cases h

theorem encodeChar_one {a : UInt8} {c : Char} (ha : a.toNat < 0x80) (hc : scalar? a.toNat = some c) :
    encodeChar c = [a] := by
  have hcode := toNat_of_scalar? hc
  simp only [encodeChar, hcode, ha, if_true]
  rw [UInt8.ofNat_toNat]

theorem encodeChar_two {a b : UInt8} {x : Nat} {c : Char} (ha : 0xC0 ≤ a.toNat) (ha' : a.toNat < 0xE0)
    (hb : continuation? b = some x) (hc : atLeast 0x80 ((a.toNat - 0xC0) * 64 + x) = some c) :
    encodeChar c = [a, b] := by
  obtain ⟨hx, hb⟩ := toNat_of_continuation? hb
  obtain ⟨hlow, hcode⟩ := toNat_of_atLeast hc
  simp only [encodeChar]
  rw [if_neg (by omega), if_pos (by omega), ofNat_of_toNat (a := a) (by omega), ofNat_of_toNat (a := b) (by omega)]

theorem encodeChar_three {a b d : UInt8} {x y : Nat} {c : Char} (ha : 0xE0 ≤ a.toNat) (ha' : a.toNat < 0xF0)
    (hb : continuation? b = some x) (hd : continuation? d = some y)
    (hc : atLeast 0x800 ((a.toNat - 0xE0) * 4096 + x * 64 + y) = some c) : encodeChar c = [a, b, d] := by
  obtain ⟨hx, hb⟩ := toNat_of_continuation? hb
  obtain ⟨hy, hd⟩ := toNat_of_continuation? hd
  obtain ⟨hlow, hcode⟩ := toNat_of_atLeast hc
  simp only [encodeChar]
  rw [if_neg (by omega), if_neg (by omega), if_pos (by omega), ofNat_of_toNat (a := a) (by omega),
    ofNat_of_toNat (a := b) (by omega), ofNat_of_toNat (a := d) (by omega)]

theorem encodeChar_four {a b d e : UInt8} {x y z : Nat} {c : Char} (ha : 0xF0 ≤ a.toNat)
    (hb : continuation? b = some x) (hd : continuation? d = some y) (he : continuation? e = some z)
    (hc : atLeast 0x10000 ((a.toNat - 0xF0) * 262144 + x * 4096 + y * 64 + z) = some c) :
    encodeChar c = [a, b, d, e] := by
  obtain ⟨hx, hb⟩ := toNat_of_continuation? hb
  obtain ⟨hy, hd⟩ := toNat_of_continuation? hd
  obtain ⟨hz, he⟩ := toNat_of_continuation? he
  obtain ⟨hlow, hcode⟩ := toNat_of_atLeast hc
  simp only [encodeChar]
  rw [if_neg (by omega), if_neg (by omega), if_neg (by omega), ofNat_of_toNat (a := a) (by omega),
    ofNat_of_toNat (a := b) (by omega), ofNat_of_toNat (a := d) (by omega), ofNat_of_toNat (a := e) (by omega)]

theorem encode_cons (c : Char) (s : List Char) : encode (c :: s) = encodeChar c ++ encode s := rfl

theorem encode_append (s t : List Char) : encode (s ++ t) = encode s ++ encode t := List.flatMap_append

theorem encode_of_decode? {octets : List UInt8} {s : List Char} (h : decode? octets = some s) : encode s = octets := by
  fun_induction decode? octets generalizing s with
  | case1 =>
    cases h
    rfl
  | case2 a r ha ih =>
    simp only [Option.bind_eq_bind, Option.bind_eq_some_iff, Option.pure_def, Option.some.injEq] at h
    obtain ⟨c, hc, t, ht, rfl⟩ := h
    rw [encode_cons, encodeChar_one ha hc, ih ht, List.singleton_append]
  | case3 => cases h
  | case4 a ha1 ha2 ha b r ih =>
    simp only [Option.bind_eq_bind, Option.bind_eq_some_iff, Option.pure_def, Option.some.injEq] at h
    obtain ⟨x, hx, c, hc, t, ht, rfl⟩ := h
    rw [encode_cons, encodeChar_two (Nat.le_of_not_lt ha2) ha hx hc, ih ht]
    rfl
  | case5 => cases h
  | case6 a ha1 ha2 ha3 ha b d r ih =>
    simp only [Option.bind_eq_bind, Option.bind_eq_some_iff, Option.pure_def, Option.some.injEq] at h
    obtain ⟨x, hx, y, hy, c, hc, t, ht, rfl⟩ := h
    rw [encode_cons, encodeChar_three (Nat.le_of_not_lt ha3) ha hx hy hc, ih ht]
    rfl
  | case7 => cases h
  | case8 a ha1 ha2 ha3 ha4 ha b d e r ih =>
    simp only [Option.bind_eq_bind, Option.bind_eq_some_iff, Option.pure_def, Option.some.injEq] at h
    obtain ⟨x, hx, y, hy, z, hz, c, hc, t, ht, rfl⟩ := h
    rw [encode_cons, encodeChar_four (Nat.le_of_not_lt ha4) hx hy hz hc, ih ht]
    rfl
  | case9 => cases h
  | case10 => cases h

/-- Octets are decoded exactly to the text that they encode. -/
theorem decode?_eq_some_iff {octets : List UInt8} {s : List Char} : decode? octets = some s ↔ encode s = octets := by
  constructor
  · exact encode_of_decode?
  · rintro rfl
    exact decode?_encode s

/-! ### Where a character begins -/

/-- The first octet of a character is no continuation, and every later one is. -/
theorem encodeChar_eq_cons (c : Char) :
    ∃ a r, encodeChar c = a :: r ∧ continuation? a = none ∧ ∀ b ∈ r, (continuation? b).isSome = true := by
  have hlt := toNat_lt c
  have hlater {n : Nat} (h : n < 64) : (continuation? (.ofNat (0x80 + n))).isSome = true := by
    rw [continuation?_ofNat h]
    rfl
  have hfirst {n : Nat} (h : n < 0x80 ∨ 0xC0 ≤ n) (hn : n < 256) : continuation? (.ofNat n) = none := by
    unfold continuation?
    rw [toNat_ofNat_of_lt hn, if_neg (by omega)]
  unfold encodeChar
  by_cases h1 : c.toNat < 0x80
  · simp only [h1, ↓reduceIte]
    exact ⟨_, _, rfl, hfirst (.inl h1) (by omega), by simp⟩
  by_cases h2 : c.toNat < 0x800
  · simp only [h1, h2, ↓reduceIte]
    refine ⟨_, _, rfl, hfirst (by omega) (by omega), ?_⟩
    simp only [List.forall_mem_cons]
    exact ⟨hlater (by omega), by simp⟩
  by_cases h3 : c.toNat < 0x10000
  · simp only [h1, h2, h3, ↓reduceIte]
    refine ⟨_, _, rfl, hfirst (by omega) (by omega), ?_⟩
    simp only [List.forall_mem_cons]
    exact ⟨hlater (by omega), hlater (by omega), by simp⟩
  · simp only [h1, h2, h3, ↓reduceIte]
    refine ⟨_, _, rfl, hfirst (by omega) (by omega), ?_⟩
    simp only [List.forall_mem_cons]
    exact ⟨hlater (by omega), hlater (by omega), hlater (by omega), by simp⟩

theorem isBoundary_encode (s : List Char) : isBoundary (encode s) = true := by
  cases s with
  | nil => rfl
  | cons c s =>
    obtain ⟨a, r, hc, ha, -⟩ := encodeChar_eq_cons c
    rw [encode_cons, hc, List.cons_append, isBoundary, ha]
    rfl

theorem encode_eq_encodeChar_append {s : List Char} {after : List UInt8} {c : Char}
    (h : encode s = encodeChar c ++ after) : ∃ s', s = c :: s' ∧ encode s' = after := by
  have hdecode := decode?_encodeChar_append c after
  rw [← h, decode?_encode, eq_comm, Option.map_eq_some_iff] at hdecode
  obtain ⟨s', hs', rfl⟩ := hdecode
  exact ⟨s', rfl, encode_of_decode? hs'⟩

/-- A character whose octets stand among those of a text is one of its characters: it shares no octet with the
    characters before it. -/
theorem encode_eq_append_iff {s : List Char} {before after : List UInt8} {c : Char} :
    encode s = before ++ (encodeChar c ++ after) ↔
      ∃ s₁ s₂, s = s₁ ++ c :: s₂ ∧ encode s₁ = before ∧ encode s₂ = after := by
  constructor
  · intro h
    induction s generalizing before with
    | nil =>
      obtain ⟨a, r, hc, -⟩ := encodeChar_eq_cons c
      rw [hc] at h
      simp [encode] at h
    | cons d s ih =>
      cases before with
      | nil =>
        obtain ⟨s', hs, hafter⟩ := encode_eq_encodeChar_append h
        exact ⟨[], s', hs, rfl, hafter⟩
      | cons b before =>
        -- Past its first octet, a character has continuations only, and `c` does not begin with one.
        obtain ⟨a, r, hd, -, hlater⟩ := encodeChar_eq_cons d
        rw [encode_cons, hd, List.cons_append, List.cons_append, List.cons.injEq] at h
        obtain ⟨rfl, h⟩ := h
        rcases List.append_eq_append_iff.mp h with ⟨middle, rfl, hrest⟩ | ⟨later, rfl, hrest⟩
        · obtain ⟨s₁, s₂, rfl, rfl, rfl⟩ := ih hrest
          refine ⟨d :: s₁, s₂, rfl, ?_, rfl⟩
          rw [encode_cons, hd, List.cons_append]
        · cases later with
          | nil =>
            have hrest : encode s = [] ++ (encodeChar c ++ after) := hrest.symm
            obtain ⟨s₁, s₂, rfl, hs₁, rfl⟩ := ih hrest
            refine ⟨d :: s₁, s₂, rfl, ?_, rfl⟩
            rw [encode_cons, hd, hs₁, List.append_nil, List.append_nil]
          | cons x later =>
            obtain ⟨y, r', hc, hfirst, -⟩ := encodeChar_eq_cons c
            rw [hc, List.cons_append, List.cons_append, List.cons.injEq] at hrest
            have hx := hlater x (by simp)
            rw [← hrest.1, hfirst] at hx
            cases hx
  · rintro ⟨s₁, s₂, rfl, rfl, rfl⟩
    rw [encode_append, encode_cons]

end DirectorySearch.Utf8
