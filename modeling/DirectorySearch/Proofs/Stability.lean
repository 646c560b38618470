import DirectorySearch.Proofs.Members

/-! Forms that do not depend on the layout. A form reads data from a draft, or from the value of a draft that was
    finished before it was known what the data is; either way, a stable one reads the same from a draft that is laid out
    anew. Forms of data without fields are stable, and so are lists and records of stable forms. -/

namespace DirectorySearch

/-! ### Values of relaid drafts -/

namespace DataType

open Json Draft

/-- What two drafts are finished to, of which one is laid out as the other. -/
def RelaidValue (T : DataType) (v v' : Json) : Prop :=
  ∃ room d d', T.Relaid d d' ∧ d.finish room = .ok v ∧ d'.finish room = .ok v'

inductive RelaidValues : (Nat → DataType) → List Json → List Json → Prop where
  | nil {types : Nat → DataType} : RelaidValues types [] []
  | cons {types : Nat → DataType} {v v' : Json} {vs vs' : List Json} (h : (types 0).RelaidValue v v')
      (hvs : RelaidValues (fun i => types (i + 1)) vs vs') : RelaidValues types (v :: vs) (v' :: vs')

/-- A member of the same name, of the type that is declared for it. -/
def MemberRelaid (declared : String → Option DataType) (n n' : String × Json) : Prop :=
  n'.1 = n.1 ∧ ((declared n.1).getD .plain).RelaidValue n.2 n'.2

def RelaidContent (declared : String → Option DataType) (ns ns' : List (String × Json)) : Prop :=
  ∃ kept, Thinned (MemberRelaid declared) (fun n => declared n.1 = none) ns kept ∧ kept.Perm ns'

variable {T : DataType} {room : Nat}

theorem RelaidContent.nil {declared : String → Option DataType} {ns' : List (String × Json)}
    (h : RelaidContent declared [] ns') : ns' = [] := by
  obtain ⟨kept, hkept, hperm⟩ := h
  cases hkept
  exact List.nil_perm.mp hperm

theorem RelaidContent.single {declared : String → Option DataType} (hdeclared : ∀ name, declared name ≠ none)
    {name : String} {v : Json} {ns' : List (String × Json)} (h : RelaidContent declared [(name, v)] ns') :
    ∃ v', ns' = [(name, v')] ∧ ((declared name).getD .plain).RelaidValue v v' := by
  obtain ⟨kept, hkept, hperm⟩ := h
  cases hkept with
  | @keep _ n' _ _ hn hrest =>
    cases hrest
    obtain ⟨name', v'⟩ := n'
    obtain ⟨rfl, hv⟩ := hn
    exact ⟨v', (List.singleton_perm.mp hperm).symm, hv⟩
  | drop hfree _ => exact absurd hfree (hdeclared name)

theorem RelaidItems.values {types : Nat → DataType} {ds ds' : List Draft} (h : RelaidItems types ds ds')
    {vs vs' : List Json} (hvs : finishItems room ds = .ok vs) (hvs' : finishItems room ds' = .ok vs') :
    RelaidValues types vs vs' := by
  rw [finishItems_eq_ok] at hvs hvs'
  induction ds generalizing types ds' vs vs' with
  | nil =>
    cases h
    cases hvs
    cases hvs'
    exact .nil
  | cons d ds ih =>
    cases h with
    | cons h hds =>
    obtain ⟨v, vs, hv, hrest, rfl⟩ := List.forall₂_cons_left_iff.mp hvs
    obtain ⟨v', vs', hv', hrest', rfl⟩ := List.forall₂_cons_left_iff.mp hvs'
    exact .cons ⟨room, _, _, h, hv, hv'⟩ (ih hds hrest hrest')

theorem RelaidMembers.thinned {declared : String → Option DataType} {ms kept : List (Draft × Draft)}
    (h : RelaidMembers declared ms kept) {ns ns' : List (String × Json)} (hns : List.Forall₂ (Finished room) ms ns)
    (hns' : List.Forall₂ (Finished room) kept ns') :
    Thinned (MemberRelaid declared) (fun n => declared n.1 = none) ns ns' := by
  induction ms generalizing kept ns ns' with
  | nil =>
    cases h
    cases hns
    cases hns'
    exact .nil
  | cons m ms ih =>
    cases h with
    | keep h hms =>
      obtain ⟨n, ns, hn, hrest, rfl⟩ := List.forall₂_cons_left_iff.mp hns
      obtain ⟨n', ns', hn', hrest', rfl⟩ := List.forall₂_cons_left_iff.mp hns'
      refine .keep ⟨Except.ok.inj (hn'.1.symm.trans hn.1), room, _, _, ?_, hn.2, hn'.2⟩ (ih hms hrest hrest')
      rw [nameOf?, hn.1] at h
      exact h
    | drop hkey hname hms =>
      obtain ⟨n, ns, hn, hrest, rfl⟩ := List.forall₂_cons_left_iff.mp hns
      have heq := hn.1.symm.trans (toOption_eq_some.mp hkey)
      exact .drop (Except.ok.inj heq ▸ hname) (ih hms hrest hns')

theorem RelaidMembers.drafts {declared : String → Option DataType} {ms kept : List (Draft × Draft)}
    (h : RelaidMembers declared ms kept) :
    Thinned (fun m m' => m'.1 = m.1 ∧ (((nameOf? m.1).bind declared).getD .plain).Relaid m.2 m'.2)
      (fun m => ∃ name, nameOf? m.1 = some name ∧ declared name = none) ms kept := by
  induction ms generalizing kept with
  | nil =>
    cases h
    exact .nil
  | cons m ms ih =>
    cases h with
    | keep h hms => exact .keep ⟨rfl, h⟩ (ih hms)
    | drop hkey hname hms => exact .drop ⟨_, hkey, hname⟩ (ih hms)

/-- Values of relaid drafts are the same, or both arrays, or both objects. -/
theorem RelaidValue.cases {v v' : Json} (h : T.RelaidValue v v') :
    v' = v ∨
      (∃ room ds vs vs', finishItems room ds = .ok vs ∧ v = .array vs ∧ v' = .array vs' ∧
        RelaidValues (T.items ds) vs vs') ∨
      ∃ room ms ns ns', finishMembers room ms = .ok ns ∧ v = .object ns ∧ v' = .object ns' ∧
        RelaidContent (T.members ms) ns ns' := by
  obtain ⟨room, d, d', h, hv, hv'⟩ := h
  cases h with
  | refl => exact .inl (Except.ok.inj (hv'.symm.trans hv))
  | @array _ ds ds' h =>
    obtain ⟨r, vs, rfl, hvs, -, rfl⟩ := finish_array.mp hv
    obtain ⟨r', vs', hr, hvs', -, rfl⟩ := finish_array.mp hv'
    cases hr
    exact .inr (.inl ⟨r, ds, vs, vs', hvs, rfl, rfl, h.values hvs hvs'⟩)
  | @object _ ms kept ms' h hperm =>
    obtain ⟨r, ns, rfl, hns, -, rfl⟩ := finish_object.mp hv
    obtain ⟨r', ns', hr, hns', -, rfl⟩ := finish_object.mp hv'
    cases hr
    obtain ⟨middle, hmiddle, hns'⟩ := List.perm_comp_forall₂ hperm (finishMembers_eq_ok.mp hns')
    exact .inr (.inr ⟨r, ms, ns, ns', hns, rfl, rfl, middle, h.thinned (finishMembers_eq_ok.mp hns) hmiddle, hns'⟩)

end DataType

namespace Json

/-- A form that does not depend on the layout of a type of data. What it reads has no flaw. -/
structure Form.Stable {α : Type} (T : DataType) (form : Form α) : Prop where
  sound : ∀ {room : Nat} {d : Draft} {a : α}, form.direct room d = .ok a → d.Sound
  direct : ∀ {room : Nat} {d d' : Draft} {a : α}, T.Relaid d d' → form.direct room d = .ok a →
    form.direct room d' = .ok a
  buffered : ∀ {v v' : Json} {a : α}, T.RelaidValue v v' → form.buffered v = some a → form.buffered v' = some a

namespace Form

variable {α β : Type} {T : DataType}

/-! ### Data without fields -/

theorem stable_ofBuffered {read : Json → Option α}
    (h : ∀ {v v' : Json} {a : α}, T.RelaidValue v v' → read v = some a → read v' = some a) :
    Stable T (ofBuffered read) where
  sound hread := by
    obtain ⟨v, hv, -⟩ := bind_eq_ok.mp hread
    exact Draft.sound_of_finish hv
  direct hd hread := by
    obtain ⟨v, hv, hread⟩ := bind_eq_ok.mp hread
    obtain ⟨v', hv'⟩ := hd.finish hv
    have hvalue := h ⟨_, _, _, hd, hv, hv'⟩ (orMismatched_eq_ok hread)
    refine bind_eq_ok.mpr ⟨v', hv', ?_⟩
    rw [hvalue]
    rfl
  buffered := h

theorem Stable.refine {form : Form α} {step : α → Option β} (h : Stable T form) : Stable T (form.refine step) where
  sound hread := by
    obtain ⟨a, ha, -⟩ := bind_eq_ok.mp hread
    exact h.sound ha
  direct hd hread := by
    obtain ⟨a, ha, hstep⟩ := bind_eq_ok.mp hread
    exact bind_eq_ok.mpr ⟨a, h.direct hd ha, hstep⟩
  buffered hv hread := by
    obtain ⟨a, ha, hstep⟩ := Option.bind_eq_some_iff.mp hread
    exact Option.bind_eq_some_iff.mpr ⟨a, h.buffered hv ha, hstep⟩

/-- A form for data that is neither an array nor an object. -/
structure Simple (form : Form α) : Prop where
  sound : ∀ {room : Nat} {d : Draft} {a : α}, form.direct room d = .ok a → d.Sound
  array : ∀ {room : Nat} {ds : List Draft} {a : α}, form.direct room (.array ds none) ≠ .ok a
  object : ∀ {room : Nat} {ms : List (Draft × Draft)} {a : α}, form.direct room (.object ms none) ≠ .ok a
  arrayValue : ∀ {vs : List Json}, form.buffered (.array vs) = none
  objectValue : ∀ {ns : List (String × Json)}, form.buffered (.object ns) = none

theorem Simple.stable {form : Form α} (h : Simple form) : Stable T form where
  sound := h.sound
  direct hd hread := by
    cases hd with
    | refl => exact hread
    | array => exact absurd hread h.array
    | object => exact absurd hread h.object
  buffered hv hread := by
    rcases hv.cases with rfl | ⟨_, _, _, _, -, rfl, -⟩ | ⟨_, _, _, _, -, rfl, -⟩
    · exact hread
    · rw [h.arrayValue] at hread
      cases hread
    · rw [h.objectValue] at hread
      cases hread

theorem simple_string : Simple string where
  sound hread := by
    simp only [string] at hread
    split at hread
    · exact Draft.sound_of_spell hread
    · exact absurd hread misplaced_ne_ok
  array := by rintro _ _ _ ⟨⟩
  object := by rintro _ _ _ ⟨⟩
  arrayValue := rfl
  objectValue := rfl

theorem simple_bool : Simple bool where
  sound hread := by
    simp only [bool] at hread
    split at hread
    · rfl
    · exact absurd hread misplaced_ne_ok
  array := by rintro _ _ _ ⟨⟩
  object := by rintro _ _ _ ⟨⟩
  arrayValue := rfl
  objectValue := rfl

theorem simple_int64 : Simple int64 where
  sound hread := by
    simp only [int64] at hread
    split at hread
    · rfl
    · exact absurd hread misplaced_ne_ok
  array := by rintro _ _ _ ⟨⟩
  object := by rintro _ _ _ ⟨⟩
  arrayValue := rfl
  objectValue := rfl

theorem stable_char : Stable T char :=
  simple_string.stable.refine

/-- A name may also be the key of an object, alone and so in one order only. -/
theorem name_object {names : Names α} {room : Nat} {ms : List (Draft × Draft)} {flaw : Option Flaw} {a : α}
    (hread : (name names).direct room (.object ms flaw) = .ok a) :
    ∃ key s, ms = [(key, .null)] ∧ key.key = .ok s ∧ flaw = none := by
  simp only [name] at hread
  split at hread
  · cases hread
  · split at hread
    · cases hread
    · next key value others =>
      obtain ⟨s, hs, hread⟩ := bind_eq_ok.mp hread
      obtain ⟨named, -, hread⟩ := bind_eq_ok.mp hread
      split at hread
      · split at hread
        · obtain ⟨_, hcheck, -⟩ := bind_eq_ok.mp hread
          exact ⟨key, s, rfl, hs, Draft.check_eq_ok.mp hcheck⟩
        · cases hread
      · obtain ⟨_, hvalue, -⟩ := bind_eq_ok.mp hread
        exact absurd hvalue misplaced_ne_ok

theorem stable_name {names : Names α} : Stable .plain (name names) where
  sound {room d a} hread := by
    cases d with
    | text q =>
      obtain ⟨s, hs, -⟩ := bind_eq_ok.mp hread
      exact Draft.sound_of_spell hs
    | object ms flaw =>
      obtain ⟨key, s, rfl, hkey, rfl⟩ := name_object hread
      refine Draft.sound_object.mpr ⟨fun m hm => ?_, rfl⟩
      cases List.mem_singleton.mp hm
      exact ⟨Draft.text_of_key hkey, rfl⟩
    | _ => cases hread
  direct hd hread := by
    cases hd with
    | refl => exact hread
    | array => cases hread
    | object hms hperm =>
      obtain ⟨key, s, rfl, -, -⟩ := name_object hread
      cases hms with
      | keep hd hms =>
        cases hd
        cases hms
        rw [List.perm_singleton.mp hperm.symm]
        exact hread
      | drop _ hname _ => cases hname
  buffered hv hread := by
    rcases hv.cases with rfl | ⟨_, _, _, _, -, rfl, -⟩ | ⟨_, ms, ns, ns', -, rfl, rfl, hns⟩
    · exact hread
    · cases hread
    · simp only [name] at hread
      split at hread
      · next heq => cases heq
      · next key heq =>
        cases heq
        obtain ⟨v', rfl, hv'⟩ := hns.single fun name => Option.some_ne_none _
        rcases hv'.cases with rfl | ⟨_, _, _, _, -, ⟨⟩, -⟩ | ⟨_, _, _, _, -, ⟨⟩, -⟩
        exact hread
      · next key heq =>
        cases heq
        obtain ⟨v', rfl, hv'⟩ := hns.single fun name => Option.some_ne_none _
        rcases hv'.cases with rfl | ⟨_, _, _, _, -, ⟨⟩, -⟩ | ⟨_, _, _, _, -, ⟨⟩, rfl, hnil⟩
        · exact hread
        · cases hnil.nil
          exact hread
      · cases hread

theorem Stable.optional {form : Form α} (h : Stable T form) : Stable T (optional form) where
  sound hread := by
    simp only [Form.optional] at hread
    split at hread
    · rfl
    · obtain ⟨a, ha, -⟩ := bind_eq_ok.mp hread
      exact h.sound ha
  direct hd hread := by
    cases hd with
    | refl => exact hread
    | array hds =>
      obtain ⟨a, ha, hpure⟩ := bind_eq_ok.mp hread
      exact bind_eq_ok.mpr ⟨a, h.direct (.array hds) ha, hpure⟩
    | object hms hperm =>
      obtain ⟨a, ha, hpure⟩ := bind_eq_ok.mp hread
      exact bind_eq_ok.mpr ⟨a, h.direct (.object hms hperm) ha, hpure⟩
  buffered hv hread := by
    rcases hv.cases with rfl | ⟨_, _, _, _, -, rfl, rfl, -⟩ | ⟨_, _, _, _, -, rfl, rfl, -⟩
    · exact hread
    · obtain ⟨a, ha, hpure⟩ := Option.bind_eq_some_iff.mp hread
      exact Option.bind_eq_some_iff.mpr ⟨a, h.buffered hv ha, hpure⟩
    · obtain ⟨a, ha, hpure⟩ := Option.bind_eq_some_iff.mp hread
      exact Option.bind_eq_some_iff.mpr ⟨a, h.buffered hv ha, hpure⟩

theorem exists_of_mapM_eq_ok {f : Draft → Reading α} {ds : List Draft} {as : List α} (h : ds.mapM f = .ok as) :
    ∀ d ∈ ds, ∃ a, f d = .ok a := by
  rw [mapM_eq_ok] at h
  induction h with
  | nil => exact fun _ hd => by cases hd
  | cons ha _ ih => exact List.forall_mem_cons.mpr ⟨⟨_, ha⟩, ih⟩

theorem mapM_relaid {form : Form α} (h : Stable T form) {room : Nat} {ds ds' : List Draft} {as : List α}
    (hds : DataType.RelaidItems (fun _ => T) ds ds') (hread : ds.mapM (form.direct room) = .ok as) :
    ds'.mapM (form.direct room) = .ok as := by
  rw [mapM_eq_ok] at hread ⊢
  induction hread generalizing ds' with
  | nil =>
    cases hds
    exact .nil
  | cons ha _ ih =>
    cases hds with
    | cons hd hds => exact .cons (h.direct hd ha) (ih hds)

theorem mapM_relaidValues {form : Form α} (h : Stable T form) {vs vs' : List Json} {as : List α}
    (hvs : DataType.RelaidValues (fun _ => T) vs vs') (hread : vs.mapM form.buffered = some as) :
    vs'.mapM form.buffered = some as := by
  induction vs generalizing vs' as with
  | nil =>
    cases hvs
    exact hread
  | cons v vs ih =>
    cases hvs with
    | cons hv hvs =>
      rw [List.mapM_cons] at hread ⊢
      obtain ⟨a, ha, hread⟩ := Option.bind_eq_some_iff.mp hread
      obtain ⟨as, has, hpure⟩ := Option.bind_eq_some_iff.mp hread
      exact Option.bind_eq_some_iff.mpr ⟨a, h.buffered hv ha, Option.bind_eq_some_iff.mpr ⟨as, ih hvs has, hpure⟩⟩

theorem Stable.list {form : Form α} (h : Stable T form) : Stable (.list T) (list form) where
  sound hread := by
    simp only [Form.list] at hread
    split at hread
    · split at hread
      · cases hread
      · obtain ⟨as, has, hread⟩ := bind_eq_ok.mp hread
        obtain ⟨_, hcheck, -⟩ := bind_eq_ok.mp hread
        refine Draft.sound_array.mpr ⟨fun d hd => ?_, Draft.check_eq_ok.mp hcheck⟩
        obtain ⟨a, ha⟩ := exists_of_mapM_eq_ok has d hd
        exact h.sound ha
    · exact absurd hread misplaced_ne_ok
  direct hd hread := by
    cases hd with
    | refl => exact hread
    | array hds =>
      simp only [Form.list] at hread ⊢
      split at hread
      · cases hread
      · obtain ⟨as, has, hread⟩ := bind_eq_ok.mp hread
        exact bind_eq_ok.mpr ⟨as, mapM_relaid h hds has, hread⟩
    | object => cases hread
  buffered hv hread := by
    rcases hv.cases with rfl | ⟨_, _, vs, vs', -, rfl, rfl, hvs⟩ | ⟨_, _, _, _, -, rfl, -⟩
    · exact hread
    · exact mapM_relaidValues h hvs hread
    · cases hread

/-! ### Records -/

/-- Fields of the given names, each with a form for its type. -/
structure StableFields (fields : List Field) (fs : DataType.Fields) : Prop where
  forms : List.Forall₂ (fun field f => field.name = f.1 ∧ Stable f.2 field.form) fields fs
  nodup : (fs.map Prod.fst).Nodup

variable {fields : List Field} {fs : DataType.Fields} {room : Nat}

theorem StableFields.typeOf? (h : StableFields fields fs) {field : Field} (hfield : field ∈ fields) :
    ∃ T, DataType.typeOf? fs field.name = some T ∧ Stable T field.form := by
  obtain ⟨hforms, hnodup⟩ := h
  induction hforms with
  | nil => cases hfield
  | @cons first f fields fs hfirst _ ih =>
    obtain ⟨name, T⟩ := f
    obtain ⟨hname, hstable⟩ := hfirst
    rw [List.map_cons, List.nodup_cons] at hnodup
    rcases List.mem_cons.mp hfield with rfl | hfield
    · exact ⟨T, by simp [DataType.typeOf?, hname], hstable⟩
    · obtain ⟨T', hlookup, hstable'⟩ := ih hfield hnodup.2
      have hne : (field.name == name) = false := by
        refine beq_false_of_ne ?_
        rintro rfl
        obtain ⟨before, after, rfl, -⟩ := List.lookup_eq_some_iff.mp hlookup
        exact hnodup.1 (by simp)
      exact ⟨T', by rw [DataType.typeOf?, List.lookup_cons, hne]; exact hlookup, hstable'⟩

theorem StableFields.ne_name (h : StableFields fields fs) {name : String} (hname : DataType.typeOf? fs name = none)
    {field : Field} (hfield : field ∈ fields) : field.name ≠ name := by
  rintro rfl
  obtain ⟨T, hlookup, -⟩ := h.typeOf? hfield
  rw [hname] at hlookup
  cases hlookup

theorem StableFields.respects_drafts (h : StableFields fields fs) :
    (Access.drafts room).Respects fields
      (fun m m' => m'.1 = m.1 ∧ (((DataType.nameOf? m.1).bind (DataType.typeOf? fs)).getD .plain).Relaid m.2 m'.2)
      (fun m => ∃ name, DataType.nameOf? m.1 = some name ∧ DataType.typeOf? fs name = none) where
  name? hm := congrArg DataType.nameOf? hm.1
  read {m m' field a} hm hfield hname hread := by
    obtain ⟨T, hlookup, hstable⟩ := h.typeOf? hfield
    replace hname : DataType.nameOf? m.1 = some field.name := hname
    have hd := hm.2
    rw [hname, Option.bind_some, hlookup] at hd
    exact hstable.direct hd hread
  pass hm hsound := hm.2.sound hsound
  free := by
    rintro m field ⟨name, hname, hlookup⟩ hfield heq
    have hsame := Option.some.inj (hname.symm.trans heq)
    exact h.ne_name hlookup hfield hsame.symm

theorem StableFields.respects_values (h : StableFields fields fs) :
    Access.values.Respects fields (DataType.MemberRelaid (DataType.typeOf? fs))
      (fun n => DataType.typeOf? fs n.1 = none) where
  name? hn := congrArg some hn.1
  read {n n' field a} hn hfield hname hread := by
    obtain ⟨T, hlookup, hstable⟩ := h.typeOf? hfield
    have hv := hn.2
    rw [Option.some.inj hname, hlookup] at hv
    exact hstable.buffered hv hread
  pass _ _ := trivial
  free hn hfield heq := h.ne_name hn hfield (Option.some.inj heq).symm

theorem StableFields.named (h : StableFields fields fs) {make : Slots fields → Option α} {ns ns' : List (String × Json)}
    (hns : DataType.RelaidContent (DataType.typeOf? fs) ns ns') {a : α}
    (hread : Content.read fields make (.named ns) = some a) : Content.read fields make (.named ns') = some a := by
  obtain ⟨slots, hput, hmake⟩ := Option.bind_eq_some_iff.mp hread
  obtain ⟨kept, hkept, hperm⟩ := hns
  have hall := (Slots.putAll?_eq_some.mp hput).thinned h.respects_values hkept
  exact Option.bind_eq_some_iff.mpr ⟨slots, Slots.putAll?_eq_some.mpr (hall.perm hperm), hmake⟩

theorem fill?_relaid (h : List.Forall₂ (fun field f => field.name = f.1 ∧ Stable f.2 field.form) fields fs)
    {vs vs' : List Json} (hvs : DataType.RelaidValues (DataType.typeAt fs) vs vs') {slots : Slots fields}
    (hfill : Slots.fill? fields vs = some slots) : Slots.fill? fields vs' = some slots := by
  induction h generalizing vs vs' with
  | nil =>
    cases hvs with
    | nil => exact hfill
    | cons => cases hfill
  | @cons field f fields fs hfield _ ih =>
    cases hvs with
    | nil => exact hfill
    | cons hv hvs =>
      obtain ⟨a, ha, hfill⟩ := Option.bind_eq_some_iff.mp hfill
      obtain ⟨slots, hslots, hpure⟩ := Option.bind_eq_some_iff.mp hfill
      exact Option.bind_eq_some_iff.mpr ⟨a, hfield.2.buffered hv ha,
        Option.bind_eq_some_iff.mpr ⟨slots, ih hvs hslots, hpure⟩⟩

theorem StableFields.listed (h : StableFields fields fs) {make : Slots fields → Option α} {vs vs' : List Json}
    (hvs : DataType.RelaidValues (DataType.typeAt fs) vs vs') {a : α}
    (hread : Content.read fields make (.listed vs) = some a) : Content.read fields make (.listed vs') = some a := by
  obtain ⟨slots, hfill, hmake⟩ := Option.bind_eq_some_iff.mp hread
  exact Option.bind_eq_some_iff.mpr ⟨slots, fill?_relaid h.forms hvs hfill, hmake⟩

theorem fill_relaid (h : List.Forall₂ (fun field f => field.name = f.1 ∧ Stable f.2 field.form) fields fs)
    {ds ds' : List Draft} (hds : DataType.RelaidItems (DataType.typeAt fs) ds ds') {slots : Slots fields}
    (hfill : Slots.fill room none fields ds = .ok slots) : Slots.fill room none fields ds' = .ok slots := by
  induction h generalizing ds ds' with
  | nil =>
    cases hds with
    | nil => exact hfill
    | cons => cases hfill
  | @cons field f fields fs hfield _ ih =>
    cases hds with
    | nil => exact hfill
    | cons hd hds =>
      obtain ⟨a, ha, hfill⟩ := bind_eq_ok.mp hfill
      obtain ⟨slots, hslots, hpure⟩ := bind_eq_ok.mp hfill
      exact bind_eq_ok.mpr ⟨a, hfield.2.direct hd ha, bind_eq_ok.mpr ⟨slots, ih hds hslots, hpure⟩⟩

theorem sound_of_fill (h : List.Forall₂ (fun field f => field.name = f.1 ∧ Stable f.2 field.form) fields fs)
    {ds : List Draft} {flaw : Option Flaw} {slots : Slots fields} (hfill : Slots.fill room flaw fields ds = .ok slots) :
    (Draft.array ds flaw).Sound := by
  rw [Draft.sound_array]
  induction h generalizing ds with
  | nil =>
    cases ds with
    | nil =>
      obtain ⟨_, hcheck, -⟩ := bind_eq_ok.mp hfill
      exact ⟨fun _ hd => (by cases hd), Draft.check_eq_ok.mp hcheck⟩
    | cons => cases hfill
  | @cons field f fields fs hfield _ ih =>
    cases ds with
    | nil =>
      obtain ⟨_, hcheck, -⟩ := bind_eq_ok.mp hfill
      exact ⟨fun _ hd => (by cases hd), Draft.check_eq_ok.mp hcheck⟩
    | cons d ds =>
      obtain ⟨a, ha, hfill⟩ := bind_eq_ok.mp hfill
      obtain ⟨slots, hslots, -⟩ := bind_eq_ok.mp hfill
      obtain ⟨hds, hflaw⟩ := ih hslots
      exact ⟨List.forall_mem_cons.mpr ⟨hfield.2.sound ha, hds⟩, hflaw⟩

theorem StableFields.sound (h : StableFields fields fs) {ms : List (Draft × Draft)} {slots slots' : Slots fields}
    (hput : Slots.putAll room fields ms slots = .ok slots') : (Draft.object ms none).Sound := by
  refine Draft.sound_object.mpr ⟨fun m hm => ?_, rfl⟩
  obtain ⟨⟨name, hname⟩, hread⟩ := (Slots.putAll_eq_ok.mp hput).mem m hm
  refine ⟨Draft.text_of_key (toOption_eq_some.mp hname), ?_⟩
  rcases hread with hpass | ⟨field, hfield, a, ha⟩
  · exact hpass
  · obtain ⟨T, -, hstable⟩ := h.typeOf? hfield
    exact hstable.sound ha

theorem StableFields.putAll (h : StableFields fields fs) {ms kept ms' : List (Draft × Draft)}
    (hms : DataType.RelaidMembers (DataType.typeOf? fs) ms kept) (hperm : kept.Perm ms') {slots slots' : Slots fields}
    (hput : Slots.putAll room fields ms slots = .ok slots') : Slots.putAll room fields ms' slots = .ok slots' := by
  have hall := (Slots.putAll_eq_ok.mp hput).thinned h.respects_drafts hms.drafts
  exact Slots.putAll_eq_ok.mpr (hall.perm hperm)

theorem items_record (hshape : T.shape = .record fs) (ds : List Draft) : T.items ds = DataType.typeAt fs := by
  funext i
  rw [DataType.items, hshape]

theorem members_record (hshape : T.shape = .record fs) (ms : List (Draft × Draft)) :
    T.members ms = DataType.typeOf? fs := by
  funext name
  rw [DataType.members, hshape]

/-- A record does not depend on the order of its members, nor on those that are no fields. -/
theorem stable_record (hshape : T.shape = .record fs) (h : StableFields fields fs) {make : Slots fields → Option α} :
    Stable T (record fields make) where
  sound {room d a} hread := by
    simp only [record] at hread
    split at hread
    · split at hread
      · cases hread
      · obtain ⟨slots, hput, hread⟩ := bind_eq_ok.mp hread
        obtain ⟨_, hcheck, -⟩ := bind_eq_ok.mp hread
        cases Draft.check_eq_ok.mp hcheck
        exact h.sound hput
    · split at hread
      · cases hread
      · obtain ⟨slots, hfill, -⟩ := bind_eq_ok.mp hread
        exact sound_of_fill h.forms hfill
    · exact absurd hread misplaced_ne_ok
  direct {room d d' a} hd hread := by
    cases hd with
    | refl => exact hread
    | array hds =>
      rw [items_record hshape] at hds
      cases room with
      | zero => cases hread
      | succ room =>
        obtain ⟨slots, hfill, hread⟩ := bind_eq_ok.mp hread
        exact bind_eq_ok.mpr ⟨slots, fill_relaid h.forms hds hfill, hread⟩
    | object hms hperm =>
      rw [members_record hshape] at hms
      cases room with
      | zero => cases hread
      | succ room =>
        obtain ⟨slots, hput, hread⟩ := bind_eq_ok.mp hread
        exact bind_eq_ok.mpr ⟨slots, h.putAll hms hperm hput, hread⟩
  buffered {v v' a} hv hread := by
    rcases hv.cases with rfl | ⟨_, ds, vs, vs', -, rfl, rfl, hvs⟩ | ⟨_, ms, ns, ns', -, rfl, rfl, hns⟩
    · exact hread
    · rw [items_record hshape] at hvs
      exact h.listed hvs hread
    · rw [members_record hshape] at hns
      exact h.named hns hread

end Form

end Json

end DirectorySearch
