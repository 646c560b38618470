import Mathlib.Data.List.Perm.Basic
import DirectorySearch.Proofs.FormRange
import DirectorySearch.Proofs.JsonGrammar

/-! How a text may be laid out. The members of an object may stand in any order, and one that reads as a record may
    have members that are no fields of it. Which those are depends on the type of data that the text holds at that
    place. Whatever can be passed over or finished can be so in any other order and without such members. -/

namespace DirectorySearch

open Json (Draft)

/-! ### Types of data -/

/-- The data that a part of a query's text holds. -/
inductive DataType where
  /-- Data without fields. -/
  | plain
  | list (of : DataType)
  | table
  | column
  | expr
  | sortItem
  | condition
  | query
deriving Repr, DecidableEq

namespace DataType

/-- The fields of a record, in order. -/
abbrev Fields := List (String × DataType)

inductive Shape where
  | plain
  | list (of : DataType)
  | record (fields : Fields)
  /-- A record of one of several kinds, told by its tag. -/
  | tagged (kinds : List (String × Fields))

def shape : DataType → Shape
  | .plain => .plain
  | .list of => .list of
  | .table => .record [("name", .plain), ("name_in_source", .plain), ("object_class", .plain)]
  | .column => .record [("name", .plain), ("name_in_source", .plain), ("searchability", .plain)]
  | .expr => .tagged [("Column", [("column", .column)]), ("Literal", [("value", .plain)])]
  | .sortItem => .record [("expr", .expr), ("desc", .plain)]
  | .condition => .tagged [
      ("Comparison", [("op", .plain), ("column", .column), ("value", .plain)]),
      ("Not", [("condition", .condition)]),
      ("And", [("conditions", .list .condition)]),
      ("Or", [("conditions", .list .condition)]),
      ("Like", [("column", .column), ("pattern", .plain), ("escape", .plain), ("negated", .plain)]),
      ("In", [("column", .column), ("values", .list .plain), ("negated", .plain)]),
      ("IsNull", [("column", .column), ("negated", .plain)])]
  | .query => .record [("from", .list .table), ("projection", .list .expr), ("selection", .condition),
      ("order_by", .list .sortItem), ("limit", .plain)]

/-- The kind that a tag names, or numbers from zero. -/
def kind? (kinds : List (String × Fields)) : Json → Option Fields
  | .string name => kinds.lookup name
  | .int (.ofNat n) => (kinds[n]?).map (·.2)
  | _ => none

def kindOf? (kinds : List (String × Fields)) (tag : Draft) : Option Fields :=
  (tag.finish 0).toOption.bind (kind? kinds)

/-- The name of a member. -/
def nameOf? (key : Draft) : Option String := key.key.toOption

/-- The type of a field. -/
def typeOf? (fields : Fields) (name : String) : Option DataType := fields.lookup name

/-- The types of the members of an object, by name; those without a type are not declared. Where no record is read,
    all members are there to stay. -/
def members (T : DataType) (ms : List (Draft × Draft)) (name : String) : Option DataType :=
  match T.shape with
  | .record fields => typeOf? fields name
  | .tagged kinds =>
    match (ms.find? fun m => nameOf? m.1 = some "type").bind fun m => kindOf? kinds m.2 with
    | some fields => if name = "type" then some .plain else typeOf? fields name
    | none => some .plain
  | _ => some .plain

/-- The type of a field, by its place. -/
def typeAt (fields : Fields) (i : Nat) : DataType := (fields[i]?).elim .plain (·.2)

/-- The types of the items of an array. A record may be the array of its fields, with its tag before them. -/
def items (T : DataType) (ds : List Draft) (i : Nat) : DataType :=
  match T.shape with
  | .plain => .plain
  | .list of => of
  | .record fields => typeAt fields i
  | .tagged kinds =>
    match ds.head?.bind (kindOf? kinds), i with
    | some fields, i + 1 => typeAt fields i
    | _, _ => .plain

/-! ### Layouts -/

mutual

/-- One draft laid out as another: at any depth, the members of objects are permuted, and some that are not declared
    are left out. -/
inductive Relaid : DataType → Draft → Draft → Prop where
  | refl {T : DataType} {d : Draft} : Relaid T d d
  | array {T : DataType} {ds ds' : List Draft} (h : RelaidItems (T.items ds) ds ds') :
      Relaid T (.array ds none) (.array ds' none)
  | object {T : DataType} {ms kept ms' : List (Draft × Draft)} (h : RelaidMembers (T.members ms) ms kept)
      (hperm : kept.Perm ms') : Relaid T (.object ms none) (.object ms' none)

inductive RelaidItems : (Nat → DataType) → List Draft → List Draft → Prop where
  | nil {types : Nat → DataType} : RelaidItems types [] []
  | cons {types : Nat → DataType} {d d' : Draft} {ds ds' : List Draft} (h : Relaid (types 0) d d')
      (hds : RelaidItems (fun i => types (i + 1)) ds ds') : RelaidItems types (d :: ds) (d' :: ds')

inductive RelaidMembers : (String → Option DataType) → List (Draft × Draft) → List (Draft × Draft) → Prop where
  | nil {declared : String → Option DataType} : RelaidMembers declared [] []
  | keep {declared : String → Option DataType} {key d d' : Draft} {ms ms' : List (Draft × Draft)}
      (h : Relaid (((nameOf? key).bind declared).getD .plain) d d') (hms : RelaidMembers declared ms ms') :
      RelaidMembers declared ((key, d) :: ms) ((key, d') :: ms')
  | drop {declared : String → Option DataType} {key d : Draft} {name : String} {ms ms' : List (Draft × Draft)}
      (hkey : nameOf? key = some name) (hname : declared name = none) (hms : RelaidMembers declared ms ms') :
      RelaidMembers declared ((key, d) :: ms) ms'

end

end DataType

/-! ### Passing over and finishing -/

namespace Json

namespace Draft

variable {room : Nat}

theorem finishItems_eq_ok {ds : List Draft} {vs : List Json} :
    finishItems room ds = .ok vs ↔ List.Forall₂ (fun d v => d.finish room = .ok v) ds vs := by
  induction ds generalizing vs with
  | nil =>
    rw [List.forall₂_nil_left_iff, finishItems, pure_eq_ok]
    exact eq_comm
  | cons d ds ih =>
    simp only [finishItems, bind_eq_ok, pure_eq_ok, ih, List.forall₂_cons_left_iff]
    constructor
    · rintro ⟨v, hv, vs, hvs, rfl⟩
      exact ⟨v, vs, hv, hvs, rfl⟩
    · rintro ⟨v, vs, hv, hvs, rfl⟩
      exact ⟨v, hv, vs, hvs, rfl⟩

/-- A member and what it is finished to. -/
def Finished (room : Nat) (m : Draft × Draft) (n : String × Json) : Prop :=
  m.1.key = .ok n.1 ∧ m.2.finish room = .ok n.2

theorem finishMembers_eq_ok {ms : List (Draft × Draft)} {ns : List (String × Json)} :
    finishMembers room ms = .ok ns ↔ List.Forall₂ (Finished room) ms ns := by
  induction ms generalizing ns with
  | nil =>
    rw [List.forall₂_nil_left_iff, finishMembers, pure_eq_ok]
    exact eq_comm
  | cons m ms ih =>
    obtain ⟨key, d⟩ := m
    simp only [finishMembers, bind_eq_ok, pure_eq_ok, ih, List.forall₂_cons_left_iff]
    constructor
    · rintro ⟨name, hname, v, hv, ns, hns, rfl⟩
      exact ⟨(name, v), ns, ⟨hname, hv⟩, hns, rfl⟩
    · rintro ⟨⟨name, v⟩, ns, ⟨hname, hv⟩, hns, rfl⟩
      exact ⟨name, hname, v, hv, ns, hns, rfl⟩

theorem finish_array {ds : List Draft} {flaw : Option Flaw} {v : Json} :
    (Draft.array ds flaw).finish room = .ok v ↔
      ∃ r vs, room = r + 1 ∧ finishItems r ds = .ok vs ∧ flaw = none ∧ v = .array vs := by
  cases room with
  | zero =>
    constructor
    · rintro ⟨⟩
    · rintro ⟨_, _, h, -⟩
      cases h
  | succ room =>
    simp only [finish, bind_eq_ok, pure_eq_ok]
    constructor
    · rintro ⟨vs, hvs, _, hcheck, rfl⟩
      exact ⟨room, vs, rfl, hvs, check_eq_ok.mp hcheck, rfl⟩
    · rintro ⟨_, vs, ⟨⟩, hvs, rfl, rfl⟩
      exact ⟨vs, hvs, (), rfl, rfl⟩

theorem finish_object {ms : List (Draft × Draft)} {flaw : Option Flaw} {v : Json} :
    (Draft.object ms flaw).finish room = .ok v ↔
      ∃ r ns, room = r + 1 ∧ finishMembers r ms = .ok ns ∧ flaw = none ∧ v = .object ns := by
  cases room with
  | zero =>
    constructor
    · rintro ⟨⟩
    · rintro ⟨_, _, h, -⟩
      cases h
  | succ room =>
    simp only [finish, bind_eq_ok, pure_eq_ok]
    constructor
    · rintro ⟨ns, hns, _, hcheck, rfl⟩
      exact ⟨room, ns, rfl, hns, check_eq_ok.mp hcheck, rfl⟩
    · rintro ⟨_, ns, ⟨⟩, hns, rfl, rfl⟩
      exact ⟨ns, hns, (), rfl, rfl⟩

theorem flaw_of_spell {ps : List Piece} {f : Option Flaw} {cs : List Char} (h : Piece.spell ps f = .ok cs) :
    f = none := by
  fun_induction Piece.spell ps f generalizing cs with
  | case1 => rfl
  | case2 => cases h
  | case3 c r f ih =>
    obtain ⟨_, hr, -⟩ := bind_eq_ok.mp h
    exact ih hr
  | case4 f n m r _ _ ih =>
    obtain ⟨_, hr, -⟩ := bind_eq_ok.mp h
    exact ih hr
  | case7 f n m r _ _ ih =>
    obtain ⟨_, hr, -⟩ := bind_eq_ok.mp h
    exact ih hr
  | case10 f n r _ _ _ ih =>
    obtain ⟨_, hr, -⟩ := bind_eq_ok.mp h
    exact ih hr
  | _ => cases h

theorem sound_of_spell {q : Quoted} {s : String} (h : q.spell = .ok s) : Sound (.text q) := by
  unfold Quoted.spell at h
  split at h
  · next hspell => exact sound_text.mpr (flaw_of_spell hspell)
  · cases h

/-- The names of members are texts. -/
theorem text_of_key {key : Draft} {name : String} (h : key.key = .ok name) : ∃ q, key = .text q ∧ q.flaw = none := by
  cases key with
  | text q => exact ⟨q, rfl, sound_text.mp (sound_of_spell h)⟩
  | _ => cases h

mutual

/-- What can be finished can be passed over. -/
theorem sound_of_finish : ∀ {d : Draft} {room : Nat} {v : Json}, d.finish room = .ok v → Sound d
  | .absent, _, _, h => by cases h
  | .broken _, _, _, h => by cases h
  | .cutNumber, _, _, h => by cases h
  | .null, _, _, _ => rfl
  | .bool _, _, _, _ => rfl
  | .number _, _, _, _ => rfl
  | .text q, _, _, h => by
    obtain ⟨s, hs, -⟩ := bind_eq_ok.mp h
    exact sound_of_spell hs
  | .array ds flaw, _, _, h => by
    obtain ⟨r, vs, -, hvs, hflaw, -⟩ := finish_array.mp h
    exact sound_array.mpr ⟨sound_of_finishItems hvs, hflaw⟩
  | .object ms flaw, _, _, h => by
    obtain ⟨r, ns, -, hns, hflaw, -⟩ := finish_object.mp h
    exact sound_object.mpr ⟨sound_of_finishMembers hns, hflaw⟩

theorem sound_of_finishItems : ∀ {ds : List Draft} {room : Nat} {vs : List Json}, finishItems room ds = .ok vs →
    ∀ d ∈ ds, Sound d
  | [], _, _, _ => fun _ hd => by cases hd
  | d :: ds, room, vs, h => by
    obtain ⟨v, hv, h⟩ := bind_eq_ok.mp h
    obtain ⟨vs, hvs, -⟩ := bind_eq_ok.mp h
    exact List.forall_mem_cons.mpr ⟨sound_of_finish hv, sound_of_finishItems hvs⟩

theorem sound_of_finishMembers : ∀ {ms : List (Draft × Draft)} {room : Nat} {ns : List (String × Json)},
    finishMembers room ms = .ok ns → ∀ m ∈ ms, (∃ q, m.1 = .text q ∧ q.flaw = none) ∧ Sound m.2
  | [], _, _, _ => fun _ hm => by cases hm
  | (key, d) :: ms, room, ns, h => by
    obtain ⟨name, hname, h⟩ := bind_eq_ok.mp h
    obtain ⟨v, hv, h⟩ := bind_eq_ok.mp h
    obtain ⟨ns, hns, -⟩ := bind_eq_ok.mp h
    exact List.forall_mem_cons.mpr ⟨⟨text_of_key hname, sound_of_finish hv⟩, sound_of_finishMembers hns⟩

end

end Draft

end Json

namespace DataType

open Json Draft

mutual

theorem Relaid.sound : ∀ {T : DataType} {d d' : Draft}, Relaid T d d' → Sound d → Sound d'
  | _, _, _, .refl, hd => hd
  | _, _, _, .array h, hd => sound_array.mpr ⟨h.sound (sound_array.mp hd).1, rfl⟩
  | _, _, _, .object h hperm, hd =>
    sound_object.mpr ⟨fun m hm => h.sound (sound_object.mp hd).1 m (hperm.mem_iff.mpr hm), rfl⟩

theorem RelaidItems.sound : ∀ {types : Nat → DataType} {ds ds' : List Draft}, RelaidItems types ds ds' →
    (∀ d ∈ ds, Sound d) → ∀ d ∈ ds', Sound d
  | _, _, _, .nil, hds => hds
  | _, _, _, .cons h hds, hsound => by
    rw [List.forall_mem_cons] at hsound ⊢
    exact ⟨h.sound hsound.1, hds.sound hsound.2⟩

theorem RelaidMembers.sound : ∀ {declared : String → Option DataType} {ms ms' : List (Draft × Draft)},
    RelaidMembers declared ms ms' → (∀ m ∈ ms, (∃ q, m.1 = .text q ∧ q.flaw = none) ∧ Sound m.2) →
      ∀ m ∈ ms', (∃ q, m.1 = .text q ∧ q.flaw = none) ∧ Sound m.2
  | _, _, _, .nil, hms => hms
  | _, _, _, .keep h hms, hsound => by
    rw [List.forall_mem_cons] at hsound ⊢
    exact ⟨⟨hsound.1.1, h.sound hsound.1.2⟩, hms.sound hsound.2⟩
  | _, _, _, .drop _ _ hms, hsound => hms.sound (List.forall_mem_cons.mp hsound).2

end

mutual

theorem Relaid.finish : ∀ {T : DataType} {d d' : Draft}, Relaid T d d' → ∀ {room : Nat} {v : Json},
    d.finish room = .ok v → ∃ v', d'.finish room = .ok v'
  | _, _, _, .refl, _, v, hv => ⟨v, hv⟩
  | _, _, _, .array h, _, _, hv => by
    obtain ⟨r, vs, rfl, hvs, -, -⟩ := finish_array.mp hv
    obtain ⟨vs', hvs'⟩ := h.finish hvs
    exact ⟨.array vs', finish_array.mpr ⟨r, vs', rfl, hvs', rfl, rfl⟩⟩
  | _, _, _, .object h hperm, _, _, hv => by
    obtain ⟨r, ns, rfl, hns, -, -⟩ := finish_object.mp hv
    obtain ⟨kept, hkept⟩ := h.finish hns
    obtain ⟨ns', hns', -⟩ := List.perm_comp_forall₂ hperm.symm (finishMembers_eq_ok.mp hkept)
    exact ⟨.object ns', finish_object.mpr ⟨r, ns', rfl, finishMembers_eq_ok.mpr hns', rfl, rfl⟩⟩

theorem RelaidItems.finish : ∀ {types : Nat → DataType} {ds ds' : List Draft}, RelaidItems types ds ds' →
    ∀ {room : Nat} {vs : List Json}, finishItems room ds = .ok vs → ∃ vs', finishItems room ds' = .ok vs'
  | _, _, _, .nil, _, vs, hvs => ⟨vs, hvs⟩
  | _, _, _, .cons h hds, room, _, hvs => by
    obtain ⟨v, vs, hv, hrest, rfl⟩ := List.forall₂_cons_left_iff.mp (finishItems_eq_ok.mp hvs)
    obtain ⟨v', hv'⟩ := h.finish hv
    obtain ⟨vs', hvs'⟩ := hds.finish (finishItems_eq_ok.mpr hrest)
    exact ⟨v' :: vs', finishItems_eq_ok.mpr (.cons hv' (finishItems_eq_ok.mp hvs'))⟩

theorem RelaidMembers.finish : ∀ {declared : String → Option DataType} {ms ms' : List (Draft × Draft)},
    RelaidMembers declared ms ms' → ∀ {room : Nat} {ns : List (String × Json)}, finishMembers room ms = .ok ns →
      ∃ ns', finishMembers room ms' = .ok ns'
  | _, _, _, .nil, _, ns, hns => ⟨ns, hns⟩
  | _, _, _, .keep h hms, room, _, hns => by
    obtain ⟨n, ns, hn, hrest, rfl⟩ := List.forall₂_cons_left_iff.mp (finishMembers_eq_ok.mp hns)
    obtain ⟨v', hv'⟩ := h.finish hn.2
    obtain ⟨ns', hns'⟩ := hms.finish (finishMembers_eq_ok.mpr hrest)
    exact ⟨(n.1, v') :: ns', finishMembers_eq_ok.mpr (.cons ⟨hn.1, hv'⟩ (finishMembers_eq_ok.mp hns'))⟩
  | _, _, _, .drop _ _ hms, room, _, hns => by
    obtain ⟨n, ns, -, hrest, rfl⟩ := List.forall₂_cons_left_iff.mp (finishMembers_eq_ok.mp hns)
    exact hms.finish (finishMembers_eq_ok.mpr hrest)

end

end DataType

end DirectorySearch
