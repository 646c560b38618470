import DirectorySearch.Command.Run
import DirectorySearch.Proofs.FormRange

/-! The output of a search. Compact or with a line for each part, it is JSON and is read as one and the same object,
    which holds the search that was built and the number of its scope. -/

namespace DirectorySearch

theorem Json.parse_written {v : Json} (h : v.Fits Double.ReadsBack maxDepth) (spacing : Spacing) :
    parse (v.render spacing) = .ok v :=
  (Form.reads_ofBuffered h.1 rfl).read h.2

namespace SearchRequest

theorem inRange_protocolValue (scope : SearchScope) : Json.InRange scope.protocolValue := by
  cases scope <;> exact ⟨by decide, by decide⟩

variable {p : Double → Prop}

theorem fits_sortKeys (keys : List SortKey) : (Json.array (keys.map SortKey.toJson)).Fits p 2 := by
  rw [Json.fits_array]
  intro v hv
  obtain ⟨key, -, rfl⟩ := List.mem_map.mp hv
  simp [SortKey.toJson, Json.fits_object, Json.fits_string, Json.fits_bool]

/-- Everything in a request can be written: its containers are at most three deep, and its numbers are whole and in
    range. -/
theorem fits_members (d : SearchRequest) :
    (Json.object (d.members ++ [("scope_value", .int d.scope.protocolValue)])).Fits p 3 := by
  have hattributes : (Json.array (d.attributes.map .string)).Fits p 2 := by
    rw [Json.fits_array]
    intro v hv
    obtain ⟨attr, -, rfl⟩ := List.mem_map.mp hv
    exact Json.fits_string
  have hlimit : (Json.int d.countLimit.toInt).Fits p 2 := Json.fits_int (Json.Form.inRange_toInt d.countLimit)
  have hscope : (Json.int d.scope.protocolValue).Fits p 2 := Json.fits_int (inRange_protocolValue d.scope)
  rw [Json.fits_object]
  simp only [members, List.cons_append, List.nil_append, List.forall_mem_cons, List.not_mem_nil, false_imp_iff,
    implies_true, and_true]
  refine ⟨Json.fits_string, Json.fits_string, hattributes, Json.fits_string, hlimit, ?_, hscope⟩
  cases d.sortKeys with
  | none => exact Json.fits_null
  | some keys => exact fits_sortKeys keys

end SearchRequest

namespace Command

/-- The output does not depend on its spacing in anything but blanks. A text that is no query, or that no search
    answers, is refused for the same cause. Any other gives JSON that is read as one object, with the parts of the
    search that was built by their names, and the number of its scope. -/
theorem search_output_faithful (settings : SearchSettings) (text : String) :
    (∃ fault, Query.parse text = .error fault ∧
        ∀ spacing, search settings text spacing = .error (.invalidQuery fault)) ∨
      (∃ q problem, Query.parse text = .ok q ∧ SearchRequest.build settings q = .error problem ∧
        ∀ spacing, search settings text spacing = .error (.untranslatable problem)) ∨
      ∃ q d v, Query.parse text = .ok q ∧ SearchRequest.build settings q = .ok d ∧
        v = .object [("base_name", .string d.baseName), ("filter", .string d.filter),
          ("attributes", .array (d.attributes.map .string)), ("scope", .string d.scope.name),
          ("count_limit", .int d.countLimit.toInt),
          ("sort_keys", d.sortKeys.elim .null fun keys => .array (keys.map fun key =>
            .object [("attribute", .string key.attr), ("ascending", .bool key.ascending)])),
          ("scope_value", .int d.scope.protocolValue)] ∧
        ∀ spacing, ∃ out, search settings text spacing = .ok out ∧ (∃ draft, Json.Padded draft out.toList) ∧
          Json.parse out = .ok v := by
  cases hparse : Query.parse text with
  | error fault => exact .inl ⟨fault, rfl, fun spacing => by simp only [search, hparse]⟩
  | ok q =>
    refine .inr ?_
    cases hbuild : SearchRequest.build settings q with
    | error problem => exact .inl ⟨q, problem, rfl, hbuild, fun spacing => by simp only [search, hparse, hbuild]⟩
    | ok d =>
      have hfits : Json.Fits Double.ReadsBack Json.maxDepth _ := d.fits_members.mono (by decide)
      refine .inr ⟨q, d, _, rfl, hbuild, ?_, fun spacing => ⟨_, by simp only [search, hparse, hbuild],
        ⟨_, Json.padded_render _⟩, Json.parse_written hfits spacing⟩⟩
      cases hkeys : d.sortKeys <;> simp only [SearchRequest.members, hkeys] <;> rfl

end Command

end DirectorySearch
