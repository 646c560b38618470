import DirectorySearch.Proofs.SyntaxTree
import DirectorySearch.Proofs.Unescaping

/-! Why a filter is refused. A text outside the grammar is a mismatch. In the text of a derivation every value has a
    place of its own, and the text is refused for the leftmost value whose octets are not UTF-8. There is no third
    way: nothing is found wrong with the syntax tree of a text that matches the grammar. -/

namespace DirectorySearch

namespace FilterTree
variable {ε α β : Type}

mutual

/-- The assertion values of a filter, from left to right. -/
def values : FilterTree α → List α
  | .and parts => allValues parts
  | .or parts => allValues parts
  | .not part => values part
  | .compare _ _ value => [value]
  | .present _ => []
  | .substrings _ initial any final => initial.toList ++ (any ++ final.toList)

def allValues : List (FilterTree α) → List α
  | [] => []
  | part :: parts => values part ++ allValues parts

end

mutual

/-- The first value that cannot be read decides. -/
theorem error?_traverse (read : α → Except ε β) : ∀ t : FilterTree α,
    error? (t.traverse read) = t.values.findSome? fun a => error? (read a)
  | .and parts => by rw [traverse, error?_bind_pure, error?_traverseAll read parts, values]
  | .or parts => by rw [traverse, error?_bind_pure, error?_traverseAll read parts, values]
  | .not part => by rw [traverse, error?_bind_pure, error?_traverse read part, values]
  | .compare .. => by rw [traverse, error?_bind_pure, values, List.findSome?_singleton]
  | .present _ => rfl
  | .substrings attr initial any final => by
    have hlast (i : Option β) : error? (any.mapM read >>= fun a => final.mapM read >>= fun f =>
        pure (FilterTree.substrings attr i a f)) = (any ++ final.toList).findSome? fun a => error? (read a) := by
      rw [error?_bind_bind_pure, error?_mapM, error?_option_mapM, List.findSome?_append]
    rw [traverse, error?_bind fun i _ => hlast i, error?_option_mapM, values, ← List.findSome?_append]

theorem error?_traverseAll (read : α → Except ε β) : ∀ ts : List (FilterTree α),
    error? (traverseAll read ts) = (allValues ts).findSome? fun a => error? (read a)
  | [] => rfl
  | t :: ts => by
    rw [traverseAll, error?_bind_bind_pure, error?_traverse read t, error?_traverseAll read ts, allValues,
      List.findSome?_append]

end

end FilterTree

namespace Grammar

/-! ### Tokens -/

/-- A value that may be missing, with its place. -/
def valueToken (pos : Nat) (v : Option Value) : List (Nat × Value) :=
  v.toList.map fun v => (pos, v)

/-- Values with a star after each. -/
def pieceTokens : Nat → List Value → List (Nat × Value)
  | _, [] => []
  | pos, v :: vs => (pos, v) :: pieceTokens (pos + v.text.length + 1) vs

namespace Component

mutual

/-- The values in the text of a component that begins at some offset, each with its own offset. -/
def tokens (pos : Nat) : Component → List (Nat × Value)
  | .and first others => tokens (pos + 2) first ++ allTokens (pos + 2 + (text first).length) others
  | .or first others => tokens (pos + 2) first ++ allTokens (pos + 2 + (text first).length) others
  | .not part => tokens (pos + 2) part
  | .present _ => []
  | .substring attr initial any final =>
    let start := pos + 1 + attr.text.length + 1
    let rest := start + (valueText initial).length + 1
    valueToken start initial ++ (pieceTokens rest any ++
      valueToken (rest + (any.flatMap (·.text ++ ['*'])).length) final)
  | .simple attr relation value => valueToken (pos + 1 + attr.text.length + relation.symbol.length) value

def allTokens (pos : Nat) : List Component → List (Nat × Value)
  | [] => []
  | part :: parts => tokens pos part ++ allTokens (pos + (text part).length) parts

end

end Component

/-- Values that stand in a text in this order, at these offsets, when the text itself begins at `pos`. -/
inductive Located : Nat → List Char → List (Nat × Value) → Prop where
  | nil {pos : Nat} {s : List Char} : Located pos s []
  | cons {pos : Nat} {before rest : List Char} {v : Value} {tokens : List (Nat × Value)}
      (h : Located (pos + before.length + v.text.length) rest tokens) :
      Located pos (before ++ (v.text ++ rest)) ((pos + before.length, v) :: tokens)

namespace Located

variable {pos : Nat} {s t : List Char} {tokens others : List (Nat × Value)}

theorem skip (before : List Char) (h : Located (pos + before.length) s tokens) : Located pos (before ++ s) tokens := by
  cases h with
  | nil => exact .nil
  | @cons _ b rest v tokens h =>
    have hpos : pos + before.length + b.length = pos + (before ++ b).length := by
      rw [List.length_append, Nat.add_assoc]
    rw [hpos] at h ⊢
    rw [← List.append_assoc]
    exact .cons h

theorem append (h : Located pos s tokens) (hothers : Located (pos + s.length) t others) :
    Located pos (s ++ t) (tokens ++ others) := by
  induction h with
  | nil => exact hothers.skip _
  | @cons pos before rest v tokens h ih =>
    rw [List.append_assoc, List.append_assoc]
    refine .cons (ih ?_)
    simpa [Nat.add_assoc] using hothers

theorem trail (h : Located pos s tokens) (after : List Char) : Located pos (s ++ after) tokens := by
  have hnil : Located (pos + s.length) after [] := .nil
  simpa using h.append hnil

theorem valueToken (pos : Nat) (v : Option Value) : Located pos (valueText v) (Grammar.valueToken pos v) := by
  cases v with
  | none => exact .nil
  | some v =>
    have h : Located pos ([] ++ (v.text ++ [])) [(pos + 0, v)] := .cons .nil
    simpa [Grammar.valueToken, valueText] using h

theorem pieceTokens (pos : Nat) (vs : List Value) :
    Located pos (vs.flatMap (·.text ++ ['*'])) (Grammar.pieceTokens pos vs) := by
  induction vs generalizing pos with
  | nil => exact .nil
  | cons v vs ih =>
    have h := ((valueToken pos (some v)).trail ['*']).append (ih _)
    simpa [Grammar.valueToken, valueText, Nat.add_assoc, Grammar.pieceTokens] using h

theorem le_pos (h : Located pos s tokens) : ∀ t ∈ tokens, pos ≤ t.1 := by
  induction h with
  | nil => simp
  | @cons pos before rest v tokens h ih =>
    rw [List.forall_mem_cons]
    refine ⟨Nat.le_add_right _ _, fun t ht => ?_⟩
    have := ih t ht
    omega

theorem sorted (h : Located pos s tokens) : tokens.Pairwise fun t u => t.1 < u.1 := by
  induction h with
  | nil => exact .nil
  | @cons pos before rest v tokens h ih =>
    rw [List.pairwise_cons]
    refine ⟨fun t ht => ?_, ih⟩
    have hafter := h.le_pos t ht
    have hlength := List.length_pos_iff.mpr v.piece.2
    omega

end Located

namespace Component

theorem located_group (mark : Char) {pos : Nat} {first others : List Char} {ts us : List (Nat × Value)}
    (hfirst : Located (pos + 2) first ts) (hothers : Located (pos + 2 + first.length) others us) :
    Located pos ('(' :: mark :: (first ++ others ++ [')'])) (ts ++ us) :=
  .skip ['(', mark] ((hfirst.append hothers).trail [')'])

mutual

/-- The values of a component stand in its text at the offsets that they are given. -/
theorem located_tokens : ∀ (d : Component) (pos : Nat), Located pos d.text (d.tokens pos)
  | .and first others, pos => located_group '&' (located_tokens first _) (located_allTokens others _)
  | .or first others, pos => located_group '|' (located_tokens first _) (located_allTokens others _)
  | .not part, pos => .skip ['(', '!'] ((located_tokens part _).trail [')'])
  | .present _, _ => .nil
  | .substring attr initial any final, pos =>
    have hpieces := ((Located.pieceTokens _ any).append (.valueToken _ final)).trail [')']
    .skip ['('] (.skip attr.text (.skip ['='] ((Located.valueToken _ initial).append (.skip ['*'] hpieces))))
  | .simple attr relation value, pos =>
    have hitem : Located (pos + 1) (attr.text ++ relation.symbol ++ valueText value)
        (valueToken (pos + 1 + attr.text.length + relation.symbol.length) value) := by
      rw [List.append_assoc]
      exact .skip attr.text (.skip relation.symbol (.valueToken _ value))
    .skip ['('] (hitem.trail [')'])

theorem located_allTokens : ∀ (ds : List Component) (pos : Nat), Located pos (texts ds) (allTokens pos ds)
  | [], _ => .nil
  | part :: parts, _ => (located_tokens part _).append (located_allTokens parts _)

end

variable {β : Type} {f : List Char → Option β}

theorem findSome?_valueToken (pos : Nat) (v : Option Value) :
    (valueToken pos v).findSome? (fun t => f t.2.text) = (v.map (·.text)).toList.findSome? f := by
  cases v <;> rfl

theorem findSome?_pieceTokens (pos : Nat) (vs : List Value) :
    (pieceTokens pos vs).findSome? (fun t => f t.2.text) = (vs.map (·.text)).findSome? f := by
  induction vs generalizing pos with
  | nil => rfl
  | cons v vs ih => rw [pieceTokens, findSome?_cons_or, ih, List.map_cons, findSome?_cons_or]

mutual

/-- The values of a component are those of the filter that it shows, but for the empty ones. -/
theorem findSome?_tokens (hf : f [] = none) : ∀ (d : Component) (pos : Nat),
    (d.tokens pos).findSome? (fun t => f t.2.text) = d.tree.values.findSome? f
  | .and first others, pos => by
    rw [tokens, tree, FilterTree.values, FilterTree.allValues, List.findSome?_append, List.findSome?_append,
      findSome?_tokens hf first, findSome?_allTokens hf others]
  | .or first others, pos => by
    rw [tokens, tree, FilterTree.values, FilterTree.allValues, List.findSome?_append, List.findSome?_append,
      findSome?_tokens hf first, findSome?_allTokens hf others]
  | .not part, pos => by rw [tokens, tree, FilterTree.values, findSome?_tokens hf part]
  | .present _, _ => rfl
  | .substring attr initial any final, pos => by
    simp only [tokens, tree, FilterTree.values, List.findSome?_append, findSome?_valueToken, findSome?_pieceTokens]
  | .simple attr relation value, pos => by
    rw [tokens, findSome?_valueToken, tree, FilterTree.values]
    cases value with
    | none => simp [valueText, hf]
    | some v => rfl

theorem findSome?_allTokens (hf : f [] = none) : ∀ (ds : List Component) (pos : Nat),
    (allTokens pos ds).findSome? (fun t => f t.2.text) = (FilterTree.allValues (trees ds)).findSome? f
  | [], _ => rfl
  | part :: parts, pos => by
    rw [allTokens, trees, FilterTree.allValues, List.findSome?_append, List.findSome?_append,
      findSome?_tokens hf part, findSome?_allTokens hf parts]

end

mutual

/-- A substring item without pieces has no values, and neither has a presence. -/
theorem tokens_resolve : ∀ (d : Component) (pos : Nat), d.resolve.tokens pos = d.tokens pos
  | .and first others, pos => by
    rw [resolve, tokens, tokens, text_resolve, tokens_resolve first, allTokens_resolveAll others]
  | .or first others, pos => by
    rw [resolve, tokens, tokens, text_resolve, tokens_resolve first, allTokens_resolveAll others]
  | .not part, pos => by rw [resolve, tokens, tokens, tokens_resolve part]
  | .present _, _ => rfl
  | .substring attr initial any final, pos => by
    rw [resolve]
    split
    · next hbare =>
      obtain ⟨rfl, rfl, rfl⟩ := bare_iff.mp hbare
      rfl
    · rfl
  | .simple .., _ => rfl

theorem allTokens_resolveAll : ∀ (ds : List Component) (pos : Nat), allTokens pos (resolveAll ds) = allTokens pos ds
  | [], _ => rfl
  | part :: parts, pos => by
    rw [resolveAll, allTokens, allTokens, text_resolve, tokens_resolve part, allTokens_resolveAll parts]

end

end Component

/-! ### Faults -/

namespace Value

/-- Some run of escapes in the value does not spell a text. -/
def Undecodable (v : Value) : Prop := ∃ run : Escape.Run v.text, ¬∃ t, Escape.Spell run.codes t

theorem exists_octets (cs : List ValueChar) : ∃ o, Escape.Octets (cs.flatMap (·.text)) o := by
  induction cs with
  | nil => exact ⟨[], .nil⟩
  | cons c cs ih =>
    obtain ⟨o, ho⟩ := ih
    cases c with
    | escaped high low =>
      obtain ⟨octet, hoctet⟩ := Option.isSome_iff_exists.mp (octet?_isSome.mpr ⟨high.2, low.2⟩)
      exact ⟨_, .code ⟨high, low, octet, hoctet⟩ ho⟩
    | plain c =>
      have hc : c.val ≠ '\\' := by
        rintro h
        have hplain := c.2
        rw [h] at hplain
        cases hplain
      exact ⟨_, .char hc ho⟩

/-- The backslashes of a value are paired, so all that can be wrong with it are its runs. -/
theorem exists_replaced_iff (v : Value) : (∃ r, Escape.Replaced v.text r) ↔ ¬v.Undecodable := by
  obtain ⟨o, ho⟩ := exists_octets (v.first :: v.others)
  have hpaired : Escape.Paired v.text := ho.paired
  rw [Escape.exists_replaced_iff, and_iff_right hpaired, Undecodable, not_exists]
  exact forall_congr' fun run => not_not.symm

theorem error?_decode_eq_some {v : Value} {error : FilterError} :
    error? (Reader.decode v.text) = some error ↔ error = .invalidEscape (.ofList v.text) ∧ v.Undecodable := by
  rw [error?_eq_some, Escape.decode_eq_error_iff, exists_replaced_iff, not_not]

theorem error?_decode_eq_none {v : Value} : error? (Reader.decode v.text) = none ↔ ¬v.Undecodable := by
  rw [← not_iff_not, not_not, ← ne_eq, Option.ne_none_iff_exists']
  simp only [error?_decode_eq_some, exists_eq_left]

end Value

namespace Component

/-- The leftmost value of a text that cannot be decoded. -/
structure FirstFault (d : Component) (pos : Nat) (v : Value) : Prop where
  mem : (pos, v) ∈ d.tokens 0
  undecodable : v.Undecodable
  leftmost : ∀ pos' w, (pos', w) ∈ d.tokens 0 → w.Undecodable → pos ≤ pos'

theorem findSome?_eq_some_iff {d : Component} {error : FilterError} :
    (d.tokens 0).findSome? (fun t => error? (Reader.decode t.2.text)) = some error ↔
      ∃ pos v, d.FirstFault pos v ∧ error = .invalidEscape (.ofList v.text) := by
  have hsorted := (located_tokens d 0).sorted
  constructor
  · intro h
    obtain ⟨before, ⟨pos, v⟩, after, htokens, herror, hbefore⟩ := List.findSome?_eq_some_iff.mp h
    obtain ⟨rfl, hv⟩ := Value.error?_decode_eq_some.mp herror
    refine ⟨pos, v, ⟨by simp [htokens], hv, fun pos' w hw hundecodable => ?_⟩, rfl⟩
    rw [htokens] at hw hsorted
    rcases List.mem_append.mp hw with hw | hw
    · exact absurd hundecodable (Value.error?_decode_eq_none.mp (hbefore _ hw))
    rcases List.mem_cons.mp hw with heq | hw
    · cases heq
      exact Nat.le_refl _
    · exact Nat.le_of_lt ((List.pairwise_cons.mp (List.pairwise_append.mp hsorted).2.1).1 _ hw)
  · rintro ⟨pos, v, hfault, rfl⟩
    obtain ⟨before, after, htokens⟩ := List.append_of_mem hfault.mem
    refine List.findSome?_eq_some_iff.mpr ⟨before, (pos, v), after, htokens, ?_, fun t ht => ?_⟩
    · exact Value.error?_decode_eq_some.mpr ⟨rfl, hfault.undecodable⟩
    · refine Value.error?_decode_eq_none.mpr fun hundecodable => ?_
      have hle := hfault.leftmost t.1 t.2 (by simp [htokens, ht]) hundecodable
      rw [htokens] at hsorted
      have hlt := (List.pairwise_append.mp hsorted).2.2 t ht (pos, v) List.mem_cons_self
      omega

/-- A text with a derivation is refused for its leftmost fault only. -/
theorem parse_eq_error_iff {d : Component} {s : String} (hd : d.text = s.toList) {error : FilterError} :
    Filter.parse s = .error error ↔ ∃ pos v, d.FirstFault pos v ∧ error = .invalidEscape (.ofList v.text) := by
  have hempty : error? (Reader.decode []) = none := by decide
  have hparse : Filter.parse s = d.resolve.tree.traverse Reader.decode := by
    rw [Filter.parse, ← hd, d.filter_eq]
  rw [← error?_eq_some, hparse, FilterTree.error?_traverse, ← findSome?_tokens hempty _ 0, tokens_resolve,
    findSome?_eq_some_iff]

end Component

/-- A text is a mismatch exactly when it has no derivation. One that has is refused for the leftmost value in it that
    cannot be decoded, which is given as written. Nothing is found wrong with the syntax tree of a text. -/
theorem refusals_classified (s : String) :
    ((∃ line column, Filter.parse s = .error (.mismatch line column)) ↔ ¬∃ d : Component, d.text = s.toList) ∧
      (∀ raw, Filter.parse s = .error (.invalidEscape raw) ↔
        ∃ d : Component, d.text = s.toList ∧ ∃ pos v, d.FirstFault pos v ∧ raw = .ofList v.text) ∧
      ∀ d : Component, d.text = s.toList →
        Located 0 s.toList (d.tokens 0) ∧ Node.read d.resolve.root = (Filter.parse s).mapError .value ∧
          ∀ reason, Node.read d.resolve.root ≠ .error (.malformed reason) := by
  refine ⟨⟨?_, ?_⟩, fun raw => ⟨?_, ?_⟩, fun d hd => ?_⟩
  · rintro ⟨line, column, hparse⟩ ⟨d, hd⟩
    obtain ⟨_, _, _, herror⟩ := (Component.parse_eq_error_iff hd).mp hparse
    cases herror
  · intro hnone
    cases hfilter : Reader.filter s.toList with
    | ok t => exact absurd (Component.exists_text_of_filter hfilter) hnone
    | error offset => exact ⟨_, _, by rw [Filter.parse, hfilter]⟩
  · intro hparse
    cases hfilter : Reader.filter s.toList with
    | ok t =>
      obtain ⟨d, hd⟩ := Component.exists_text_of_filter hfilter
      obtain ⟨pos, v, hfault, hraw⟩ := (Component.parse_eq_error_iff hd).mp hparse
      exact ⟨d, hd, pos, v, hfault, FilterError.invalidEscape.inj hraw⟩
    | error offset =>
      rw [Filter.parse, hfilter] at hparse
      cases hparse
  · rintro ⟨d, hd, pos, v, hfault, rfl⟩
    exact (Component.parse_eq_error_iff hd).mpr ⟨pos, v, hfault, rfl⟩
  · have hread : Node.read d.resolve.root = (Filter.parse s).mapError .value := by
      rw [Node.read_root, hd, String.ofList_toList]
    refine ⟨hd ▸ Component.located_tokens d 0, hread, fun reason => ?_⟩
    rw [hread]
    cases Filter.parse s <;> rintro ⟨⟩

/-- Of two pieces that cannot be decoded, the text is refused for the first. -/
theorem refusals_classified_pieces :
    let s := "(&(cn=a\\2ab)(sn=*\\ff*\\fe))"
    Filter.parse s = .error (.invalidEscape "\\ff") ∧ ∃ d : Component, d.text = s.toList ∧
      (∃ pos v, d.FirstFault pos v ∧ "\\ff" = .ofList v.text) ∧
      Node.read d.resolve.root = .error (.value (.invalidEscape "\\ff")) := by
  intro s
  have hparse : Filter.parse s = .error (.invalidEscape "\\ff") := error?_eq_some.mp (by decide +kernel)
  obtain ⟨-, hfault, hread⟩ := refusals_classified s
  obtain ⟨d, hd, hfirst⟩ := (hfault "\\ff").mp hparse
  refine ⟨hparse, d, hd, hfirst, ?_⟩
  rw [(hread d hd).2.1, hparse]
  rfl

end Grammar
end DirectorySearch
