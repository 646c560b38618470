import DirectorySearch.Proofs.Layout

/-! The members of an object are read one by one into the slots of a record's fields. The outcome does not depend on
    their order, nor on members that are no field's. This holds alike of members in a draft and of members of a finished
    value. -/

namespace DirectorySearch

namespace Json

open Draft

/-- One list of members from another: each is replaced by one that is related to it, or left out. -/
inductive Thinned {M : Type} (r : M → M → Prop) (free : M → Prop) : List M → List M → Prop where
  | nil : Thinned r free [] []
  | keep {m m' : M} {ms ms' : List M} (h : r m m') (hms : Thinned r free ms ms') : Thinned r free (m :: ms) (m' :: ms')
  | drop {m : M} {ms ms' : List M} (h : free m) (hms : Thinned r free ms ms') : Thinned r free (m :: ms) ms'

/-- How the members of an object are read: each into the field of its name, or passed over. -/
structure Access (M : Type) where
  name? : M → Option String
  read : (field : Field) → M → field.Value → Prop
  pass : M → Prop

namespace Access

variable {M : Type} (A : Access M)

def Put (name : String) (m : M) : (fields : List Field) → Slots fields → Slots fields → Prop
  | [], _, _ => A.pass m
  | field :: fields, (slot, slots), (slot', slots') =>
    if field.name = name then slot = none ∧ (∃ a, A.read field m a ∧ slot' = some a) ∧ slots' = slots
    else slot' = slot ∧ Put name m fields slots slots'

def PutAll (fields : List Field) : List M → Slots fields → Slots fields → Prop
  | [], slots, slots' => slots' = slots
  | m :: ms, slots, slots' =>
    ∃ name between, A.name? m = some name ∧ A.Put name m fields slots between ∧ PutAll fields ms between slots'

variable {A} {fields : List Field} {slots between slots' : Slots fields} {m m' : M} {name name' : String}

section Fields
variable {field : Field} {slot slot' : Option field.Value}

theorem put_here (hname : field.name = name) :
    A.Put name m (field :: fields) (Slots.cons slot slots) (Slots.cons slot' slots') ↔
      slot = none ∧ (∃ a, A.read field m a ∧ slot' = some a) ∧ slots' = slots :=
  Iff.of_eq (if_pos hname)

theorem put_there (hname : field.name ≠ name) :
    A.Put name m (field :: fields) (Slots.cons slot slots) (Slots.cons slot' slots') ↔
      slot' = slot ∧ A.Put name m fields slots slots' :=
  Iff.of_eq (if_neg hname)

end Fields

/-- Two members go to different fields, or one of them to none. -/
theorem Put.swap (h : A.Put name m fields slots between) (h' : A.Put name' m' fields between slots') :
    ∃ between', A.Put name' m' fields slots between' ∧ A.Put name m fields between' slots' := by
  induction fields with
  | nil => exact ⟨slots, h', h⟩
  | cons field fields ih =>
    obtain ⟨slot, slots⟩ := slots
    obtain ⟨slot₁, between⟩ := between
    obtain ⟨slot₂, slots'⟩ := slots'
    replace h : A.Put name m (field :: fields) (Slots.cons slot slots) (Slots.cons slot₁ between) := h
    replace h' : A.Put name' m' (field :: fields) (Slots.cons slot₁ between) (Slots.cons slot₂ slots') := h'
    by_cases hname : field.name = name
    · obtain ⟨rfl, ⟨a, ha, rfl⟩, rfl⟩ := (put_here hname).mp h
      by_cases hname' : field.name = name'
      · cases ((put_here hname').mp h').1
      · obtain ⟨rfl, hput⟩ := (put_there hname').mp h'
        exact ⟨Slots.cons none slots', (put_there hname').mpr ⟨rfl, hput⟩,
          (put_here hname).mpr ⟨rfl, ⟨a, ha, rfl⟩, rfl⟩⟩
    · obtain ⟨rfl, hput⟩ := (put_there hname).mp h
      by_cases hname' : field.name = name'
      · obtain ⟨rfl, ⟨a, ha, rfl⟩, rfl⟩ := (put_here hname').mp h'
        exact ⟨Slots.cons (some a) slots, (put_here hname').mpr ⟨rfl, ⟨a, ha, rfl⟩, rfl⟩,
          (put_there hname).mpr ⟨rfl, hput⟩⟩
      · obtain ⟨rfl, hput'⟩ := (put_there hname').mp h'
        obtain ⟨between', hfirst, hsecond⟩ := ih hput hput'
        exact ⟨Slots.cons _ between', (put_there hname').mpr ⟨rfl, hfirst⟩, (put_there hname).mpr ⟨rfl, hsecond⟩⟩

theorem PutAll.perm {ms ms' : List M} (hperm : ms.Perm ms') (h : A.PutAll fields ms slots slots') :
    A.PutAll fields ms' slots slots' := by
  induction hperm generalizing slots with
  | nil => exact h
  | cons m _ ih =>
    obtain ⟨name, between, hname, hput, hall⟩ := h
    exact ⟨name, between, hname, hput, ih hall⟩
  | swap m m' ms =>
    obtain ⟨name', between', hname', hput', name, between, hname, hput, hall⟩ := h
    obtain ⟨middle, hput, hput'⟩ := hput'.swap hput
    exact ⟨name, middle, hname, hput, name', between, hname', hput', hall⟩
  | trans _ _ ih₁ ih₂ => exact ih₂ (ih₁ h)

/-- A member that is no field's changes nothing. -/
theorem Put.free (hname : ∀ field ∈ fields, field.name ≠ name) (h : A.Put name m fields slots slots') :
    slots' = slots := by
  induction fields with
  | nil => rfl
  | cons field fields ih =>
    obtain ⟨slot, slots⟩ := slots
    obtain ⟨slot', slots'⟩ := slots'
    rw [List.forall_mem_cons] at hname
    obtain ⟨rfl, hput⟩ := (put_there hname.1).mp h
    rw [ih hname.2 hput]

theorem Put.congr (hread : ∀ field ∈ fields, field.name = name → ∀ a, A.read field m a → A.read field m' a)
    (hpass : A.pass m → A.pass m') (h : A.Put name m fields slots slots') : A.Put name m' fields slots slots' := by
  induction fields with
  | nil => exact hpass h
  | cons field fields ih =>
    obtain ⟨slot, slots⟩ := slots
    obtain ⟨slot', slots'⟩ := slots'
    rw [List.forall_mem_cons] at hread
    by_cases hname : field.name = name
    · obtain ⟨hslot, ⟨a, ha, hslot'⟩, hslots⟩ := (put_here hname).mp h
      exact (put_here hname).mpr ⟨hslot, ⟨a, hread.1 hname a ha, hslot'⟩, hslots⟩
    · obtain ⟨hslot, hput⟩ := (put_there hname).mp h
      exact (put_there hname).mpr ⟨hslot, ih hread.2 hput⟩

theorem Put.exists (h : A.Put name m fields slots slots') :
    A.pass m ∨ ∃ field ∈ fields, ∃ a, A.read field m a := by
  induction fields with
  | nil => exact .inl h
  | cons field fields ih =>
    obtain ⟨slot, slots⟩ := slots
    obtain ⟨slot', slots'⟩ := slots'
    by_cases hname : field.name = name
    · obtain ⟨-, ⟨a, ha, -⟩, -⟩ := (put_here hname).mp h
      exact .inr ⟨field, List.mem_cons_self, a, ha⟩
    · obtain ⟨-, hput⟩ := (put_there hname).mp h
      rcases ih hput with hpass | ⟨field', hfield', hread⟩
      · exact .inl hpass
      · exact .inr ⟨field', List.mem_cons_of_mem _ hfield', hread⟩

/-- What members related to those that are read have to keep. -/
structure Respects (A : Access M) (fields : List Field) (r : M → M → Prop) (free : M → Prop) : Prop where
  name? : ∀ {m m' : M}, r m m' → A.name? m' = A.name? m
  read : ∀ {m m' : M} {field : Field} {a : field.Value}, r m m' → field ∈ fields → A.name? m = some field.name →
    A.read field m a → A.read field m' a
  pass : ∀ {m m' : M}, r m m' → A.pass m → A.pass m'
  free : ∀ {m : M} {field : Field}, free m → field ∈ fields → A.name? m ≠ some field.name

theorem PutAll.thinned {r : M → M → Prop} {free : M → Prop} (hr : A.Respects fields r free) {ms ms' : List M}
    (hms : Thinned r free ms ms') (h : A.PutAll fields ms slots slots') : A.PutAll fields ms' slots slots' := by
  induction hms generalizing slots with
  | nil => exact h
  | keep hm _ ih =>
    obtain ⟨name, between, hname, hput, hall⟩ := h
    refine ⟨name, between, (hr.name? hm).trans hname, hput.congr ?_ (hr.pass hm), ih hall⟩
    rintro field hfield rfl a ha
    exact hr.read hm hfield hname ha
  | drop hm _ ih =>
    obtain ⟨name, between, hname, hput, hall⟩ := h
    have hsame : between = slots := hput.free fun field hfield heq => hr.free hm hfield (heq ▸ hname)
    exact ih (hsame ▸ hall)

/-- Every member has a name, and is passed over or read into a field. -/
theorem PutAll.mem {ms : List M} (h : A.PutAll fields ms slots slots') :
    ∀ m ∈ ms, (∃ name, A.name? m = some name) ∧ (A.pass m ∨ ∃ field ∈ fields, ∃ a, A.read field m a) := by
  induction ms generalizing slots with
  | nil => exact fun _ hm => by cases hm
  | cons m ms ih =>
    obtain ⟨name, between, hname, hput, hall⟩ := h
    exact List.forall_mem_cons.mpr ⟨⟨⟨name, hname⟩, hput.exists⟩, ih hall⟩

/-- Members of a draft. -/
def drafts (room : Nat) : Access (Draft × Draft) where
  name? m := DataType.nameOf? m.1
  read field m a := field.form.direct room m.2 = .ok a
  pass m := Sound m.2

/-- Members of a finished value. -/
def values : Access (String × Json) where
  name? n := some n.1
  read field n a := field.form.buffered n.2 = some a
  pass _ := True

end Access

namespace Slots

variable {fields : List Field} {slots slots' : Slots fields}

theorem put_eq_ok {room : Nat} {name : String} {m : Draft × Draft} :
    put room name m.2 fields slots = .ok slots' ↔ (Access.drafts room).Put name m fields slots slots' := by
  induction fields with
  | nil =>
    constructor
    · intro h
      obtain ⟨_, hskip, -⟩ := bind_eq_ok.mp h
      exact hskip
    · intro hskip
      exact bind_eq_ok.mpr ⟨(), hskip, rfl⟩
  | cons field fields ih =>
    obtain ⟨slot, slots⟩ := slots
    obtain ⟨slot', slots'⟩ := slots'
    show put room name m.2 (field :: fields) (cons slot slots) = .ok (cons slot' slots') ↔ _
    by_cases hname : field.name = name
    · refine Iff.trans ?_ (Access.put_here hname).symm
      subst hname
      cases slot with
      | some a =>
        rw [put_twice]
        exact ⟨fun h => (by cases h), fun h => (by cases h.1)⟩
      | none =>
        rw [put_name, map_eq_ok]
        constructor
        · rintro ⟨a, ha, ⟨⟩⟩
          exact ⟨rfl, ⟨a, ha, rfl⟩, rfl⟩
        · rintro ⟨-, ⟨a, ha, rfl⟩, rfl⟩
          exact ⟨a, ha, rfl⟩
    · refine Iff.trans ?_ (Access.put_there hname).symm
      rw [put_of_ne _ _ (Ne.symm hname), map_eq_ok, ← ih]
      constructor
      · rintro ⟨_, hput, ⟨⟩⟩
        exact ⟨rfl, hput⟩
      · rintro ⟨rfl, hput⟩
        exact ⟨_, hput, rfl⟩

theorem put?_eq_some {n : String × Json} :
    put? n.1 n.2 fields slots = some slots' ↔ Access.values.Put n.1 n fields slots slots' := by
  induction fields with
  | nil => exact ⟨fun _ => trivial, fun _ => rfl⟩
  | cons field fields ih =>
    obtain ⟨slot, slots⟩ := slots
    obtain ⟨slot', slots'⟩ := slots'
    show put? n.1 n.2 (field :: fields) (cons slot slots) = some (cons slot' slots') ↔ _
    by_cases hname : field.name = n.1
    · refine Iff.trans ?_ (Access.put_here hname).symm
      rw [← hname]
      cases slot with
      | some a =>
        rw [put?_twice]
        exact ⟨fun h => (by cases h), fun h => (by cases h.1)⟩
      | none =>
        rw [put?_name, Option.map_eq_some_iff]
        constructor
        · rintro ⟨a, ha, ⟨⟩⟩
          exact ⟨rfl, ⟨a, ha, rfl⟩, rfl⟩
        · rintro ⟨-, ⟨a, ha, rfl⟩, rfl⟩
          exact ⟨a, ha, rfl⟩
    · refine Iff.trans ?_ (Access.put_there hname).symm
      rw [put?_of_ne _ _ (Ne.symm hname), Option.map_eq_some_iff, ← ih]
      constructor
      · rintro ⟨_, hput, ⟨⟩⟩
        exact ⟨rfl, hput⟩
      · rintro ⟨rfl, hput⟩
        exact ⟨_, hput, rfl⟩

theorem putAll_eq_ok {room : Nat} {ms : List (Draft × Draft)} :
    putAll room fields ms slots = .ok slots' ↔ (Access.drafts room).PutAll fields ms slots slots' := by
  induction ms generalizing slots with
  | nil => exact pure_eq_ok.trans eq_comm
  | cons m ms ih =>
    simp only [putAll, bind_eq_ok, Access.PutAll, put_eq_ok (m := m), ih]
    constructor
    · rintro ⟨name, hname, between, hput, hall⟩
      exact ⟨name, between, toOption_eq_some.mpr hname, hput, hall⟩
    · rintro ⟨name, between, hname, hput, hall⟩
      exact ⟨name, toOption_eq_some.mp hname, between, hput, hall⟩

theorem putAll?_eq_some {ns : List (String × Json)} :
    putAll? fields ns slots = some slots' ↔ Access.values.PutAll fields ns slots slots' := by
  induction ns generalizing slots with
  | nil => exact Option.some_inj.trans eq_comm
  | cons n ns ih =>
    simp only [putAll?, Option.bind_eq_bind, Option.bind_eq_some_iff, Access.PutAll, put?_eq_some, ih]
    constructor
    · rintro ⟨between, hput, hall⟩
      exact ⟨n.1, between, rfl, hput, hall⟩
    · rintro ⟨_, between, ⟨⟩, hput, hall⟩
      exact ⟨between, hput, hall⟩

end Slots

end Json

end DirectorySearch
