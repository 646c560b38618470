import DirectorySearch.Filter.Basic

/-! A filter as groups and negations over items. What concerns the items alone is said of one item and
    carried to whole filters here, once. -/

namespace DirectorySearch

/-- A filter without groups and negations. -/
inductive Item (α : Type) where
  | compare (relation : Relation) (attr : String) (value : α)
  | present (attr : String)
  | substrings (attr : String) (initial : Option α) (any : List α) (final : Option α)
deriving Repr, BEq, DecidableEq

namespace Item
variable {α : Type}

def attr : Item α → String
  | .compare _ attr _ => attr
  | .present attr => attr
  | .substrings attr _ _ _ => attr

def toFilter : Item α → FilterTree α
  | .compare relation attr value => .compare relation attr value
  | .present attr => .present attr
  | .substrings attr initial any final => .substrings attr initial any final

@[simp] theorem toFilter_inj {i j : Item α} : i.toFilter = j.toFilter ↔ i = j := by
  cases i <;> cases j <;> simp [toFilter]

end Item

namespace FilterTree

variable {α β : Type}

mutual

/-- Every group has a part, and every item satisfies `p`. -/
def WellFormed (p : Item α → Prop) : FilterTree α → Prop
  | .and parts => parts ≠ [] ∧ AllWellFormed p parts
  | .or parts => parts ≠ [] ∧ AllWellFormed p parts
  | .not part => WellFormed p part
  | .compare relation attr value => p (.compare relation attr value)
  | .present attr => p (.present attr)
  | .substrings attr initial any final => p (.substrings attr initial any final)

def AllWellFormed (p : Item α → Prop) : List (FilterTree α) → Prop
  | [] => True
  | part :: parts => WellFormed p part ∧ AllWellFormed p parts

end

mutual

/-- The filter with `f` applied to every item. -/
def mapItems (f : Item α → Item β) : FilterTree α → FilterTree β
  | .and parts => .and (mapAllItems f parts)
  | .or parts => .or (mapAllItems f parts)
  | .not part => .not (mapItems f part)
  | .compare relation attr value => (f (.compare relation attr value)).toFilter
  | .present attr => (f (.present attr)).toFilter
  | .substrings attr initial any final => (f (.substrings attr initial any final)).toFilter

def mapAllItems (f : Item α → Item β) : List (FilterTree α) → List (FilterTree β)
  | [] => []
  | part :: parts => mapItems f part :: mapAllItems f parts

end

/-! ### One item -/

@[simp] theorem wellFormed_toFilter (p : Item α → Prop) (i : Item α) : WellFormed p i.toFilter ↔ p i := by
  cases i <;> exact Iff.rfl

@[simp] theorem mapItems_toFilter (f : Item α → Item β) (i : Item α) : mapItems f i.toFilter = (f i).toFilter := by
  cases i <;> rfl

/-! ### Whole filters -/

theorem mapAllItems_eq_nil {f : Item α → Item β} {parts : List (FilterTree α)} :
    mapAllItems f parts = [] ↔ parts = [] := by
  cases parts <;> simp [mapAllItems]

mutual

theorem wellFormed_mapItems {f : Item α → Item β} {p : Item β → Prop} :
    ∀ t : FilterTree α, (t.mapItems f).WellFormed p ↔ t.WellFormed fun i => p (f i)
  | .and parts => by
    simp only [mapItems, WellFormed, ne_eq, mapAllItems_eq_nil, allWellFormed_mapAllItems parts]
  | .or parts => by
    simp only [mapItems, WellFormed, ne_eq, mapAllItems_eq_nil, allWellFormed_mapAllItems parts]
  | .not part => by simp only [mapItems, WellFormed, wellFormed_mapItems part]
  | .compare relation attr value => wellFormed_toFilter p (f (.compare relation attr value))
  | .present attr => wellFormed_toFilter p (f (.present attr))
  | .substrings attr initial any final => wellFormed_toFilter p (f (.substrings attr initial any final))

theorem allWellFormed_mapAllItems {f : Item α → Item β} {p : Item β → Prop} :
    ∀ parts : List (FilterTree α), AllWellFormed p (mapAllItems f parts) ↔ AllWellFormed (fun i => p (f i)) parts
  | [] => Iff.rfl
  | part :: parts => by
    simp only [mapAllItems, AllWellFormed, wellFormed_mapItems part, allWellFormed_mapAllItems parts]

end

mutual

theorem WellFormed.imp {p q : Item α → Prop} (h : ∀ i, p i → q i) :
    ∀ {t : FilterTree α}, t.WellFormed p → t.WellFormed q
  | .and _, ⟨hne, hparts⟩ => ⟨hne, hparts.imp h⟩
  | .or _, ⟨hne, hparts⟩ => ⟨hne, hparts.imp h⟩
  | .not part, hpart => WellFormed.imp h (t := part) hpart
  | .compare .., hp => h _ hp
  | .present _, hp => h _ hp
  | .substrings .., hp => h _ hp

theorem AllWellFormed.imp {p q : Item α → Prop} (h : ∀ i, p i → q i) :
    ∀ {parts : List (FilterTree α)}, AllWellFormed p parts → AllWellFormed q parts
  | [], _ => trivial
  | _ :: _, ⟨hpart, hparts⟩ => ⟨hpart.imp h, hparts.imp h⟩

end

mutual

theorem WellFormed.and {p q : Item α → Prop} :
    ∀ {t : FilterTree α}, t.WellFormed p → t.WellFormed q → t.WellFormed fun i => p i ∧ q i
  | .and _, ⟨hne, hp⟩, ⟨_, hq⟩ => ⟨hne, hp.and hq⟩
  | .or _, ⟨hne, hp⟩, ⟨_, hq⟩ => ⟨hne, hp.and hq⟩
  | .not part, hp, hq => WellFormed.and (t := part) hp hq
  | .compare .., hp, hq => ⟨hp, hq⟩
  | .present _, hp, hq => ⟨hp, hq⟩
  | .substrings .., hp, hq => ⟨hp, hq⟩

theorem AllWellFormed.and {p q : Item α → Prop} :
    ∀ {parts : List (FilterTree α)}, AllWellFormed p parts → AllWellFormed q parts →
      AllWellFormed (fun i => p i ∧ q i) parts
  | [], _, _ => trivial
  | _ :: _, ⟨hp, hps⟩, ⟨hq, hqs⟩ => ⟨hp.and hq, hps.and hqs⟩

end

mutual

/-- Items that satisfy `p` and are not changed leave the filter as it is. -/
theorem mapItems_eq_self {f : Item α → Item α} {p : Item α → Prop} (h : ∀ i, p i → f i = i) :
    ∀ {t : FilterTree α}, t.WellFormed p → t.mapItems f = t
  | .and _, ⟨_, hparts⟩ => by rw [mapItems, mapAllItems_eq_self h hparts]
  | .or _, ⟨_, hparts⟩ => by rw [mapItems, mapAllItems_eq_self h hparts]
  | .not part, hpart => by rw [mapItems, mapItems_eq_self h (t := part) hpart]
  | .compare .., hp => by rw [mapItems, h _ hp, Item.toFilter]
  | .present _, hp => by rw [mapItems, h _ hp, Item.toFilter]
  | .substrings .., hp => by rw [mapItems, h _ hp, Item.toFilter]

theorem mapAllItems_eq_self {f : Item α → Item α} {p : Item α → Prop} (h : ∀ i, p i → f i = i) :
    ∀ {parts : List (FilterTree α)}, AllWellFormed p parts → mapAllItems f parts = parts
  | [], _ => rfl
  | _ :: _, ⟨hpart, hparts⟩ => by rw [mapAllItems, mapItems_eq_self h hpart, mapAllItems_eq_self h hparts]

end

/-! ### Reading values -/

section Traverse
variable {ε γ : Type} {read : β → Except ε γ} {f : Item α → Item β} {g : Item α → Item γ}

mutual

/-- Where every item of one form is read as the other form of the same item, so is the filter. -/
theorem traverse_mapItems (h : ∀ i, (f i).toFilter.traverse read = .ok (g i).toFilter) :
    ∀ t : FilterTree α, (t.mapItems f).traverse read = .ok (t.mapItems g)
  | .and parts => by
    simp only [mapItems, traverse, traverseAll_mapAllItems h parts]
    rfl
  | .or parts => by
    simp only [mapItems, traverse, traverseAll_mapAllItems h parts]
    rfl
  | .not part => by
    simp only [mapItems, traverse, traverse_mapItems h part]
    rfl
  | .compare .. => h _
  | .present _ => h _
  | .substrings .. => h _

theorem traverseAll_mapAllItems (h : ∀ i, (f i).toFilter.traverse read = .ok (g i).toFilter) :
    ∀ parts : List (FilterTree α), traverseAll read (mapAllItems f parts) = .ok (mapAllItems g parts)
  | [] => rfl
  | part :: parts => by
    simp only [mapAllItems, traverseAll, traverse_mapItems h part, traverseAll_mapAllItems h parts]
    rfl

end

end Traverse

end FilterTree

end DirectorySearch
