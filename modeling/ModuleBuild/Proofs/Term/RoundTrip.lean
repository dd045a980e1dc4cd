import ModuleBuild.Proofs.Json.RoundTrip
import ModuleBuild.Proofs.Number.Numeral
import ModuleBuild.Proofs.Outcome
import ModuleBuild.Proofs.Term.Normal
import ModuleBuild.Proofs.Text.Utf8

/-! # The round trip of values through payloads

A payload holds its value in normal form: zero has no sign, and a record without a
field `$term` loses the fields that are undefined.  Nothing else is changed, whatever
keys the records have (`decode_encode_of_isPlain`).  For records whose fields are not in field
order, reading the payload also puts them in order (`decode_of_encode`).
-/
namespace ModuleBuild
namespace Term

open Value

/-! ## Reading fields -/

/-- Members are read as fields, without the undefined ones. -/
theorem untagMembers_of_sameFields {fs : List (String × Value)} {ms : List (String × Json)}
    (h : SameFields (fun v j => untag j = some v) fs ms) :
    untagMembers ms = some (fs.filter fun f => f.2.isDefined) := by
  induction h with
  | nil => rfl
  | @cons f m _ _ hm _ ih =>
    obtain ⟨n, v⟩ := f
    obtain ⟨n', j⟩ := m
    obtain ⟨rfl, hj⟩ := hm
    simp only [untagMembers, hj, ih, Option.bind_eq_bind, Option.bind_some]
    cases v <;> rfl

/-- What is no tag is read as it is. -/
theorem untagFields_of_untagged {fs : List (String × Value)} (h : findField tagName fs = none) :
    untagFields fs = some (.fields fs) := by
  rw [untagFields, h]

/-- The members of a tag stand in the order in which they are written. -/
theorem canonical_tagged (kind : String) {n : String} (j : Json)
    (hn : positionBefore n tagName = false ∧ tagName ≠ n) :
    (tagged kind [(n, j)]).canonical = .object [(tagName, .text kind), (n, j.canonical)] := by
  have horder : [(tagName, Json.text kind), (n, j.canonical)].Pairwise MayPrecede := by
    refine List.pairwise_cons.mpr ⟨fun e he => ?_, List.pairwise_singleton ..⟩
    rw [List.mem_singleton.mp he]
    exact hn
  exact congrArg Json.object (fieldsOf_eq_self horder)

/-- The entries of a record that looks like a tag. -/
def entryList (ms : List (String × Json)) : List Json := ms.map fun m => .list [.text m.1, m.2]

theorem canonicalItems_entryList (ms : List (String × Json)) :
    Json.canonicalItems (entryList ms) = entryList (Json.canonicalMembers ms) := by
  induction ms with
  | nil => rfl
  | cons m rest ih =>
    obtain ⟨n, j⟩ := m
    exact congrArg (Json.list [.text n, j.canonical] :: ·) ih

/-- Entries are read one by one, the undefined ones too. -/
theorem untagItems_entryList {fs : List (String × Value)} {ms : List (String × Json)}
    (h : SameFields (fun v j => untag j = some v) fs ms) :
    untagItems (entryList ms) = some (fs.map fun f => .list [.text f.1, f.2]) := by
  induction h with
  | nil => rfl
  | @cons f m _ ms hm _ ih =>
    obtain ⟨n, v⟩ := f
    obtain ⟨n', j⟩ := m
    obtain ⟨rfl, hj⟩ := hm
    have hentry : untag (.list [.text n, j]) = some (.list [.text n, v]) := by
      simp [untag, untagItems, hj]
    change untagItems (.list [.text n, j] :: entryList ms) = _
    rw [untagItems, hentry, ih]
    rfl

theorem filterMap_asMember? (fs : List (String × Value)) :
    (fs.map fun f => Value.list [.text f.1, f.2]).filterMap asMember? = fs := by
  induction fs with
  | nil => rfl
  | cons f rest ih =>
    rw [List.map_cons, List.filterMap_cons]
    simp only [asMember?, ih]

/-- **The entries of a record that looks like a tag are read as its fields**: none of
them is taken for a tag. -/
theorem untag_entries {fs : List (String × Value)} {ms : List (String × Json)}
    (h : SameFields (fun v j => untag j = some v) fs ms) :
    untag (.object [(tagName, .text "object"), ("entries", .list (entryList ms))])
      = some (record fs) := by
  have hread : untag (.object [(tagName, .text "object"), ("entries", .list (entryList ms))])
      = untagFields [(tagName, .text "object"),
          ("entries", .list (fs.map fun f => .list [.text f.1, f.2]))] := by
    simp [untag, untagMembers, untagItems_entryList h]
  rw [hread]
  exact congrArg (fun es => some (record es)) (filterMap_asMember? fs)

/-- A tag that holds a text. -/
theorem untag_value (kind s : String) :
    untag (.object [(tagName, .text kind), ("value", .text s)])
      = untagFields [(tagName, .text kind), ("value", .text s)] := rfl

/-! ## Writing -/

theorem tag_list_ok {vs : List Value} {j : Json} (h : tag (.list vs) = .ok j) :
    ∃ js, tagItems vs = .ok js ∧ j = .list js := by
  obtain ⟨js, hjs, h⟩ := map_eq_ok.mp h
  exact ⟨js, hjs, h.symm⟩

theorem tag_fields_ok {fs : List (String × Value)} {j : Json} (h : tag (.fields fs) = .ok j) :
    ∃ ms, tagFields fs = .ok ms ∧
      j = if (findField tagName fs).isSome then tagged "object" [("entries", .list (entryList ms))]
        else .object ms := by
  rw [tag] at h
  split at h
  · next htag =>
    obtain ⟨ms, hms, rfl⟩ := map_eq_ok.mp h
    exact ⟨ms, hms, by rw [if_pos htag]; rfl⟩
  · next htag =>
    obtain ⟨ms, hms, rfl⟩ := map_eq_ok.mp h
    exact ⟨ms, hms, by rw [if_neg htag]⟩

theorem tagItems_cons_ok {v : Value} {vs : List Value} {js : List Json}
    (h : tagItems (v :: vs) = .ok js) :
    ∃ j, tag v = .ok j ∧ ∃ js', tagItems vs = .ok js' ∧ js = j :: js' := by
  obtain ⟨j, hj, h⟩ := bind_eq_ok.mp h
  obtain ⟨js', hjs, h⟩ := bind_eq_ok.mp h
  cases h
  exact ⟨j, hj, js', hjs, rfl⟩

theorem tagFields_cons_ok {n : String} {v : Value} {fs : List (String × Value)}
    {ms : List (String × Json)} (h : tagFields ((n, v) :: fs) = .ok ms) :
    ∃ j, tag v = .ok j ∧ ∃ ms', tagFields fs = .ok ms' ∧ ms = (n, j) :: ms' := by
  obtain ⟨j, hj, h⟩ := bind_eq_ok.mp h
  obtain ⟨ms', hms, h⟩ := bind_eq_ok.mp h
  cases h
  exact ⟨j, hj, ms', hms, rfl⟩

/-! ## The round trip -/

/-- What is written for a record is read as the record, if that holds of its fields. -/
theorem untag_record {fs : List (String × Value)} {ms : List (String × Json)}
    (h : SameFields (fun v j => untag j = some v) (normFields (orderedFields fs))
      (Json.canonicalMembers ms)) :
    untag (if (findField tagName fs).isSome
        then tagged "object" [("entries", .list (entryList ms))] else .object ms).canonical
      = some (norm (ordered (.fields fs))) := by
  have hfields : normFields (fieldsOf (orderedFields fs))
      = fieldsOf (normFields (orderedFields fs)) := by
    rw [normFields_eq, normFields_eq, fieldsOf_map]
  have htag : (findField tagName (fieldsOf (orderedFields fs))).isSome
      = (findField tagName fs).isSome := by
    rw [isSome_findField_fieldsOf, orderedFields_eq, isSome_findField_map]
  rw [ordered, record, norm, hfields, htag]
  by_cases hfs : (findField tagName fs).isSome = true
  · -- a field `$term`: the record is written as the list of its entries
    rw [if_pos hfs, if_pos hfs, canonical_tagged _ _ (by decide), Json.canonical,
      canonicalItems_entryList, untag_entries h]
    rfl
  · have hnone : findField tagName (fieldsOf (normFields (orderedFields fs))) = none := by
      rw [← Option.not_isSome_iff_eq_none, ← hfields, normFields_eq, isSome_findField_map, htag]
      exact hfs
    rw [if_neg hfs, if_neg hfs, Json.canonical, Json.ofMembers, untag,
      untagMembers_of_sameFields h.fieldsOf]
    exact untagFields_of_untagged (findField_filter_eq_none _ hnone)

mutual

/-- What is written for a value is read as its normal form. -/
theorem untag_of_tag : ∀ (v : Value) (j : Json), tag v = .ok j →
    untag j.canonical = some (norm (ordered v))
  | .undefined, j, h => by
    cases h
    rfl
  | .null, j, h | .bool _, j, h | .text _, j, h => by
    cases h
    rfl
  | .number x, j, h => by
    cases h
    by_cases hx : x.isFinite = true
    · rw [if_pos hx, Json.canonical, if_pos hx]
      rfl
    · rw [if_neg hx, canonical_tagged _ _ (by decide), Json.canonical, untag_value]
      have hread : untagFields [(tagName, .text "number"), ("value", .text x.text)]
          = some (.number (Numeral.number x.text)) := rfl
      rw [hread, Numeral.number_text (Bool.eq_false_iff.mpr hx)]
      cases x with
      | finite => exact absurd rfl hx
      | nan | infinite => rfl
  | .bigint i, j, h => by
    cases h
    rw [canonical_tagged _ _ (by decide), Json.canonical, untag_value]
    have hread : untagFields [(tagName, .text "bigint"), ("value", .text (toString i))]
        = (Numeral.integer? (toString i)).map .bigint := rfl
    rw [hread, Numeral.integer?_toString]
    rfl
  | .list vs, j, h => by
    obtain ⟨js, hjs, rfl⟩ := tag_list_ok h
    rw [Json.canonical, untag, untagItems_of_tagItems vs js hjs]
    rfl
  | .fields fs, j, h => by
    obtain ⟨ms, hms, rfl⟩ := tag_fields_ok h
    exact untag_record (sameFields_of_tagFields fs ms hms)
  | .foreign f, j, h => by cases h

theorem untagItems_of_tagItems : ∀ (vs : List Value) (js : List Json), tagItems vs = .ok js →
    untagItems (Json.canonicalItems js) = some (normItems (orderedItems vs))
  | [], js, h => by
    cases h
    rfl
  | v :: vs, js, h => by
    obtain ⟨j, hj, js', hjs, rfl⟩ := tagItems_cons_ok h
    rw [Json.canonicalItems, untagItems, untag_of_tag v j hj, untagItems_of_tagItems vs js' hjs]
    rfl

theorem sameFields_of_tagFields : ∀ (fs : List (String × Value)) (ms : List (String × Json)),
    tagFields fs = .ok ms →
    SameFields (fun v j => untag j = some v) (normFields (orderedFields fs))
      (Json.canonicalMembers ms)
  | [], ms, h => by
    cases h
    exact .nil
  | (n, v) :: fs, ms, h => by
    obtain ⟨j, hj, ms', hms, rfl⟩ := tagFields_cons_ok h
    exact .cons ⟨rfl, untag_of_tag v j hj⟩ (sameFields_of_tagFields fs ms' hms)

end

/-- **A payload holds the reading of its value**: the normal form, with the fields of
records in field order. -/
theorem decode_of_encode {v : Value} {payload : List UInt8} (h : encode v = .ok payload) :
    decode payload = some (reading v) := by
  obtain ⟨j, hj, rfl⟩ := map_eq_ok.mp h
  rw [decode, Utf8.decode_encode, Json.parse_render, Option.bind_some]
  exact untag_of_tag v j hj

/-! ## Plain values -/

theorem tagItems_ok {vs : List Value} (h : ∀ v ∈ vs, ∃ j, tag v = .ok j) :
    ∃ js, tagItems vs = .ok js := by
  induction vs with
  | nil => exact ⟨[], rfl⟩
  | cons v rest ih =>
    obtain ⟨j, hj⟩ := h v List.mem_cons_self
    obtain ⟨js, hjs⟩ := ih fun v hv => h v (List.mem_cons_of_mem _ hv)
    exact ⟨j :: js, by rw [tagItems, hj, hjs]; rfl⟩

theorem tagFields_ok {fs : List (String × Value)} (h : ∀ f ∈ fs, ∃ j, tag f.2 = .ok j) :
    ∃ ms, tagFields fs = .ok ms := by
  induction fs with
  | nil => exact ⟨[], rfl⟩
  | cons f rest ih =>
    obtain ⟨j, hj⟩ := h f List.mem_cons_self
    obtain ⟨ms, hms⟩ := ih fun f hf => h f (List.mem_cons_of_mem _ hf)
    exact ⟨(f.1, j) :: ms, by rw [tagFields, hj, hms]; rfl⟩

/-- Plain values can be written. -/
theorem tag_ok_of_isPlain {v : Value} (h : IsPlain v) : ∃ j, tag v = .ok j := by
  induction h with
  | undefined | null | bool | number | bigint | text => exact ⟨_, rfl⟩
  | list _ ih =>
    obtain ⟨js, hjs⟩ := tagItems_ok ih
    exact ⟨.list js, by rw [tag, hjs]; rfl⟩
  | @fields fs _ _ ih =>
    obtain ⟨ms, hms⟩ := tagFields_ok ih
    rw [tag, hms]
    split <;> exact ⟨_, rfl⟩

theorem encode_ok_of_isPlain {v : Value} (h : IsPlain v) : ∃ payload, encode v = .ok payload := by
  obtain ⟨j, hj⟩ := tag_ok_of_isPlain h
  exact ⟨Utf8.encode j.render, by rw [encode, hj]; rfl⟩

/-- **The round trip of plain values.**  A plain value can be written; what is read back
is its normal form; and the normal form is read back as it is. -/
theorem decode_encode_of_isPlain {v : Value} (h : IsPlain v) :
    (∃ payload, encode v = .ok payload ∧ decode payload = some (norm v)) ∧
      ∃ payload, encode (norm v) = .ok payload ∧ decode payload = some (norm v) := by
  have hread {v : Value} (h : IsPlain v) :
      ∃ payload, encode v = .ok payload ∧ decode payload = some (norm v) := by
    obtain ⟨payload, hp⟩ := encode_ok_of_isPlain h
    have hdecode := decode_of_encode hp
    rw [reading, ordered_of_isPlain h] at hdecode
    exact ⟨payload, hp, hdecode⟩
  refine ⟨hread h, ?_⟩
  have hnorm := hread (isPlain_norm h)
  rwa [norm_norm h] at hnorm

/-- A record that looks like a tag, around a record that does not. -/
def tagLike : Value :=
  .fields [("1", .number (.finite true .zero)), (tagName, .text "bigint"), ("value", .undefined),
    ("__proto__", .fields [("x", .undefined), ("y", .list [.undefined, .bigint (2 ^ 70)])])]

theorem decode_encode_of_isPlain_tagLike :
    IsPlain tagLike ∧
      norm tagLike
        = .fields [("1", .number 0), (tagName, .text "bigint"), ("value", .undefined),
            ("__proto__", .fields [("y", .list [.undefined, .bigint (2 ^ 70)])])] ∧
      (∃ payload, encode tagLike = .ok payload ∧ decode payload = some (norm tagLike)) ∧
      ∃ payload, encode (norm tagLike) = .ok payload ∧ decode payload = some (norm tagLike) := by
  have hlist : IsPlain (.list [.undefined, .bigint (2 ^ 70)]) :=
    .list (List.forall_mem_cons.mpr
      ⟨.undefined, List.forall_mem_singleton.mpr (.bigint _)⟩)
  have hinner :
      IsPlain (.fields [("x", .undefined), ("y", .list [.undefined, .bigint (2 ^ 70)])]) :=
    .fields rfl (List.forall_mem_cons.mpr ⟨.undefined, List.forall_mem_singleton.mpr hlist⟩)
  have hplain : IsPlain tagLike := by
    refine .fields rfl ?_
    rw [List.forall_mem_cons, List.forall_mem_cons, List.forall_mem_cons,
      List.forall_mem_singleton]
    exact ⟨.number _, .text _, .undefined, hinner⟩
  exact ⟨hplain, rfl, decode_encode_of_isPlain hplain⟩

end Term
end ModuleBuild
