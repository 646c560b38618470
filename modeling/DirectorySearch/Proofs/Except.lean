import Mathlib.Data.List.Forall2

/-! Computations that may fail, taken apart by their results. -/

namespace DirectorySearch

variable {ε α β : Type}

theorem ok_bind (a : α) (f : α → Except ε β) : (.ok a >>= f) = f a := rfl

theorem bind_eq_ok {x : Except ε α} {f : α → Except ε β} {b : β} :
    (x >>= f) = .ok b ↔ ∃ a, x = .ok a ∧ f a = .ok b := by
  constructor
  · intro h
    cases x with
    | error e => cases h
    | ok a => exact ⟨a, rfl, h⟩
  · rintro ⟨a, rfl, h⟩
    exact h

theorem map_eq_ok {x : Except ε α} {f : α → β} {b : β} : x.map f = .ok b ↔ ∃ a, x = .ok a ∧ f a = b := by
  constructor
  · intro h
    cases x with
    | error e => cases h
    | ok a =>
      cases h
      exact ⟨a, rfl, rfl⟩
  · rintro ⟨a, rfl, rfl⟩
    rfl

theorem bind_eq_error {x : Except ε α} {f : α → Except ε β} {e : ε} :
    (x >>= f) = .error e ↔ x = .error e ∨ ∃ a, x = .ok a ∧ f a = .error e := by
  constructor
  · intro h
    cases x with
    | error e' =>
      cases h
      exact .inl rfl
    | ok a => exact .inr ⟨a, rfl, h⟩
  · rintro (rfl | ⟨a, rfl, h⟩)
    · rfl
    · exact h

theorem pure_eq_ok {a b : α} : (pure a : Except ε α) = .ok b ↔ a = b := by
  constructor
  · rintro ⟨⟩
    rfl
  · rintro rfl
    rfl

theorem error_eq_ok {e : ε} {a : α} : (Except.error e : Except ε α) = .ok a ↔ False := by
  constructor
  · rintro ⟨⟩
  · exact False.elim

theorem mapM_eq_ok {f : α → Except ε β} {as : List α} {bs : List β} :
    as.mapM f = .ok bs ↔ List.Forall₂ (fun a b => f a = .ok b) as bs := by
  induction as generalizing bs with
  | nil => rw [List.mapM_nil, pure_eq_ok, List.forall₂_nil_left_iff, eq_comm]
  | cons a as ih =>
    simp only [List.mapM_cons, bind_eq_ok, pure_eq_ok, ih, List.forall₂_cons_left_iff]
    constructor
    · rintro ⟨b, hb, bs, hbs, rfl⟩
      exact ⟨b, bs, hb, hbs, rfl⟩
    · rintro ⟨b, bs, hb, hbs, rfl⟩
      exact ⟨b, hb, bs, hbs, rfl⟩

theorem mapM_congr_forall₂ {γ : Type} {f : α → Except ε γ} {g : β → Except ε γ} {as : List α} {bs : List β}
    (h : List.Forall₂ (fun a b => f a = g b) as bs) : as.mapM f = bs.mapM g := by
  induction h with
  | nil => rfl
  | cons hfirst _ ih => rw [List.mapM_cons, List.mapM_cons, hfirst, ih]

theorem mem_of_mapM_eq_ok {f : α → Except ε β} {as : List α} {bs : List β} (h : as.mapM f = .ok bs) :
    ∀ b ∈ bs, ∃ a ∈ as, f a = .ok b := by
  rw [mapM_eq_ok] at h
  induction h with
  | nil => simp
  | @cons a b as bs hb _ ih =>
    rw [List.forall_mem_cons]
    refine ⟨⟨a, List.mem_cons_self, hb⟩, fun b' hb' => ?_⟩
    obtain ⟨a', ha', hread⟩ := ih b' hb'
    exact ⟨a', List.mem_cons_of_mem a ha', hread⟩

theorem mem_of_mapM_eq_some {f : α → Option β} {as : List α} {bs : List β} (h : as.mapM f = some bs) :
    ∀ b ∈ bs, ∃ a ∈ as, f a = some b := by
  induction as generalizing bs with
  | nil =>
    cases h
    simp
  | cons a as ih =>
    rw [List.mapM_cons] at h
    obtain ⟨b, hb, h⟩ := Option.bind_eq_some_iff.mp h
    obtain ⟨bs, hbs, hpure⟩ := Option.bind_eq_some_iff.mp h
    cases hpure
    rw [List.forall_mem_cons]
    refine ⟨⟨a, List.mem_cons_self, hb⟩, fun b' hb' => ?_⟩
    obtain ⟨a', ha', hread⟩ := ih hbs b' hb'
    exact ⟨a', List.mem_cons_of_mem a ha', hread⟩

theorem toOption_eq_some {x : Except ε α} {a : α} : x.toOption = some a ↔ x = .ok a := by
  constructor
  · intro h
    cases x <;> cases h
    rfl
  · rintro rfl
    rfl

/-! ### Errors -/

/-- The error of a computation that failed. -/
def error? : Except ε α → Option ε
  | .ok _ => none
  | .error e => some e

theorem findSome?_cons_or (f : α → Option β) (a : α) (as : List α) :
    (a :: as).findSome? f = (f a).or (as.findSome? f) := by
  rw [List.findSome?_cons]
  cases f a <;> rfl

theorem error?_error (e : ε) : error? (.error e : Except ε α) = some e := rfl

theorem error?_eq_some {x : Except ε α} {e : ε} : error? x = some e ↔ x = .error e := by
  cases x <;> simp [error?]

theorem error?_eq_none {x : Except ε α} : error? x = none ↔ ∃ a, x = .ok a := by
  cases x <;> simp [error?]

/-- What follows decides only where it is reached. -/
theorem error?_bind_congr {x : Except ε α} {f g : α → Except ε β} (h : ∀ a, error? (f a) = error? (g a)) :
    error? (x >>= f) = error? (x >>= g) := by
  cases x with
  | error e => rfl
  | ok a => exact h a

theorem error?_bind_pure (x : Except ε α) (f : α → β) : error? (x >>= fun a => pure (f a)) = error? x := by
  cases x <;> rfl

/-- Where what follows fails in one way, whatever it is given, the first failure of the two decides. -/
theorem error?_bind {x : Except ε α} {f : α → Except ε β} {o : Option ε} (h : ∀ a, x = .ok a → error? (f a) = o) :
    error? (x >>= f) = (error? x).or o := by
  cases x with
  | error e => rfl
  | ok a => exact h a rfl

/-- A list fails at its first element that does. -/
theorem error?_mapM (f : α → Except ε β) (as : List α) : error? (as.mapM f) = as.findSome? fun a => error? (f a) := by
  induction as with
  | nil => rfl
  | cons a as ih =>
    rw [List.mapM_cons, findSome?_cons_or]
    refine error?_bind fun b _ => ?_
    rw [error?_bind_pure, ih]

/-- Of two computations in a row, the first that fails decides. -/
theorem error?_bind_bind_pure {γ : Type} (x : Except ε α) (y : Except ε β) (f : α → β → γ) :
    error? (x >>= fun a => y >>= fun b => pure (f a b)) = (error? x).or (error? y) := by
  exact error?_bind fun a _ => error?_bind_pure y (f a)

theorem error?_option_mapM (f : α → Except ε β) (o : Option α) :
    error? (o.mapM f) = o.toList.findSome? fun a => error? (f a) := by
  cases o with
  | none => rfl
  | some a => rw [Option.mapM_some, map_eq_pure_bind, error?_bind_pure, Option.toList_some, List.findSome?_singleton]

/-! ### Errors renamed -/

section Renamed
variable {κ : Type}

theorem mapError_bind (x : Except ε α) (f : α → Except ε β) (g : ε → κ) :
    (x >>= f).mapError g = x.mapError g >>= fun a => (f a).mapError g := by
  cases x <;> rfl

theorem mapError_pure (a : α) (g : ε → κ) : (pure a : Except ε α).mapError g = pure a := rfl

theorem mapError_mapM (f : α → Except ε β) (g : ε → κ) (as : List α) :
    (as.mapM f).mapError g = as.mapM fun a => (f a).mapError g := by
  induction as with
  | nil => rfl
  | cons a as ih => simp only [List.mapM_cons, mapError_bind, ih, mapError_pure]

theorem mapError_option_mapM (f : α → Except ε β) (g : ε → κ) (o : Option α) :
    (o.mapM f).mapError g = o.mapM fun a => (f a).mapError g := by
  cases o with
  | none => rfl
  | some a => simp only [Option.mapM_some, map_eq_pure_bind, mapError_bind, mapError_pure]

end Renamed

/-! ### Results alike

Two results are alike up to what `f` keeps of their errors where `mapError f` makes them equal. -/

section Alike
variable {κ : Type} {f : ε → κ}

theorem mapError_eq_iff {x y : Except ε α} :
    x.mapError f = y.mapError f ↔
      (∃ a, x = .ok a ∧ y = .ok a) ∨ ∃ e e', x = .error e ∧ y = .error e' ∧ f e = f e' := by
  constructor
  · intro h
    cases x with
    | ok a =>
      cases y with
      | ok b => exact .inl ⟨a, rfl, congrArg Except.ok (Except.ok.inj h).symm⟩
      | error e => cases h
    | error e =>
      cases y with
      | ok b => cases h
      | error e' => exact .inr ⟨e, e', rfl, rfl, Except.error.inj h⟩
  · rintro (⟨a, rfl, rfl⟩ | ⟨e, e', rfl, rfl, he⟩)
    · rfl
    · exact congrArg Except.error he

theorem mapError_bind_congr {x x' : Except ε α} {g g' : α → Except ε β} (hx : x.mapError f = x'.mapError f)
    (hg : ∀ a, (g a).mapError f = (g' a).mapError f) : (x >>= g).mapError f = (x' >>= g').mapError f := by
  rcases mapError_eq_iff.mp hx with ⟨a, rfl, rfl⟩ | ⟨e, e', rfl, rfl, he⟩
  · exact hg a
  · exact congrArg Except.error he

theorem mapError_id (x : Except ε α) : x.mapError id = x := by
  cases x <;> rfl

end Alike

end DirectorySearch
