import ModuleBuild.Proofs.Relation
import ModuleBuild.Proofs.Term.RoundTrip

/-! # What payloads keep

Reading a payload removes the fields that are undefined, since the reader leaves such members
out, though the writer has tagged them.  Only a record with a field `$term`, which is written as
the list of its entries, keeps them.  Apart from the sign of zero nothing else is changed
(`norm_eq_strip`), so a plain value comes back as it was exactly if none of its other records has
an undefined field (`decode_encode_eq_iff`).
-/
namespace ModuleBuild
namespace Term

open Value

/-- A value is a part of another: the value itself, or a part of an item or of a field. -/
inductive Part (v : Value) : Value → Prop where
  | self : Part v v
  | item {vs : List Value} {w : Value} (mem : w ∈ vs) (part : Part v w) : Part v (.list vs)
  | field {fs : List (String × Value)} {f : String × Value} (mem : f ∈ fs) (part : Part v f.2) :
      Part v (.fields fs)

/-- The negative zero. -/
def negativeZero : Value := .number (.finite true .zero)

mutual

/-- A value without the undefined fields of its records, except of those with a field `$term`. -/
def strip : Value → Value
  | .list vs => .list (stripItems vs)
  | .fields fs =>
    if (findField tagName fs).isSome then .fields (stripFields fs)
    else .fields ((stripFields fs).filter fun f => f.2.isDefined)
  | v => v

/-- Items without undefined fields in their records. -/
def stripItems : List Value → List Value
  | [] => []
  | v :: rest => strip v :: stripItems rest

/-- Fields whose values have no undefined fields in their records. -/
def stripFields : List (String × Value) → List (String × Value)
  | [] => []
  | (n, v) :: rest => (n, strip v) :: stripFields rest

end

/-- Every field of a record is read back: it is a record with a field `$term`, or all its fields
are defined. -/
def KeepsFields (fs : List (String × Value)) : Prop :=
  (findField tagName fs).isSome = true ∨ ∀ f ∈ fs, f.2.isDefined = true

theorem stripItems_eq (vs : List Value) : stripItems vs = vs.map strip := by
  induction vs with
  | nil => rfl
  | cons v rest ih => rw [stripItems, ih, List.map_cons]

theorem stripFields_eq (fs : List (String × Value)) :
    stripFields fs = fs.map fun f => (f.1, strip f.2) := by
  induction fs with
  | nil => rfl
  | cons f rest ih => rw [stripFields, ih, List.map_cons]

theorem unsignedZero_eq_self {x : Number} (h : .number x ≠ negativeZero) : x.unsignedZero = x := by
  cases x with
  | nan | infinite => rfl
  | finite negative m =>
    cases negative with
    | false => rfl
    | true =>
      have hm : m.val ≠ 0 := by
        intro hm
        obtain rfl : m = .zero := Fin.ext hm
        exact h rfl
      simp [Number.unsignedZero, hm]

/-- **Without a negative zero the normal form only leaves out undefined fields.** -/
theorem norm_eq_strip {v : Value} (h : IsPlain v) (hzero : ¬ Part negativeZero v) :
    norm v = strip v := by
  induction h with
  | undefined | null | bool | bigint | text => rfl
  | number x =>
    have hx : Value.number x ≠ negativeZero := by
      intro hx
      exact hzero (hx ▸ .self)
    show Value.number x.unsignedZero = .number x
    rw [unsignedZero_eq_self hx]
  | @list vs _ ih =>
    have hitems : ∀ v ∈ vs, norm v = strip v := fun v hv => ih v hv fun hpart =>
      hzero (.item hv hpart)
    rw [norm, strip, normItems_eq, stripItems_eq, List.map_congr_left hitems]
  | @fields fs _ _ ih =>
    have hvalues : ∀ f ∈ fs, (f.1, norm f.2) = (f.1, strip f.2) := fun f hf =>
      congrArg (f.1, ·) (ih f hf fun hpart => hzero (.field hf hpart))
    rw [norm, strip, normFields_eq, stripFields_eq, List.map_congr_left hvalues]

theorem strip_list_eq_self_iff {vs : List Value} :
    strip (.list vs) = .list vs ↔ ∀ v ∈ vs, strip v = v := by
  rw [strip, stripItems_eq, Value.list.injEq, map_eq_self_iff]

theorem strip_fields_eq_self_iff {fs : List (String × Value)} :
    strip (.fields fs) = .fields fs ↔ (∀ f ∈ fs, strip f.2 = f.2) ∧ KeepsFields fs := by
  have hsnd : (∀ f ∈ fs, (f.1, strip f.2) = f) ↔ ∀ f ∈ fs, strip f.2 = f.2 :=
    forall₂_congr fun f _ => Prod.ext_iff.trans (and_iff_right rfl)
  rw [strip, KeepsFields, stripFields_eq]
  by_cases htag : (findField tagName fs).isSome = true
  · rw [if_pos htag, Value.fields.injEq, map_eq_self_iff, hsnd]
    exact (and_iff_left (Or.inl htag)).symm
  · rw [if_neg htag, Value.fields.injEq, filter_map_eq_self_iff, hsnd, or_iff_right htag]

/-- **Nothing is left out** of a value exactly if each record in it keeps its fields. -/
theorem strip_eq_self_iff {v : Value} (h : IsPlain v) :
    strip v = v ↔ ∀ fs, Part (.fields fs) v → KeepsFields fs := by
  induction h with
  | undefined | null | bool | number | bigint | text =>
    refine ⟨fun _ fs hpart => ?_, fun _ => rfl⟩
    cases hpart
  | @list vs _ ih =>
    rw [strip_list_eq_self_iff]
    constructor
    · intro hall fs hpart
      cases hpart with
      | item hw hpart => exact (ih _ hw).mp (hall _ hw) fs hpart
    · intro hall v hv
      exact (ih v hv).mpr fun fs hpart => hall fs (.item hv hpart)
  | @fields fs _ _ ih =>
    rw [strip_fields_eq_self_iff]
    constructor
    · rintro ⟨hall, hkeeps⟩ gs hpart
      cases hpart with
      | self => exact hkeeps
      | field hf hpart => exact (ih _ hf).mp (hall _ hf) gs hpart
    · intro hall
      exact ⟨fun f hf => (ih f hf).mpr fun gs hpart => hall gs (.field hf hpart), hall fs .self⟩

/-- **What a payload keeps of a plain value** without a negative zero: all but the undefined
fields of records without a field `$term`.  So the value itself comes back exactly if each record
in it is one with a field `$term` or has defined fields only. -/
theorem decode_encode_eq_iff {v : Value} (h : IsPlain v) (hzero : ¬ Part negativeZero v) :
    ∃ payload, encode v = .ok payload ∧ decode payload = some (strip v) ∧
      (decode payload = some v ↔ ∀ fs, Part (.fields fs) v → KeepsFields fs) := by
  obtain ⟨payload, hencode⟩ := encode_ok_of_isPlain h
  have hdecode : decode payload = some (strip v) := by
    rw [decode_of_encode hencode, reading, ordered_of_isPlain h, norm_eq_strip h hzero]
  refine ⟨payload, hencode, hdecode, ?_⟩
  rw [hdecode, Option.some.injEq, strip_eq_self_iff h]

/-- Undefined values in a list, in a record with a field `$term` and in another record. -/
def undefinedFields : Value :=
  .list [.undefined, .fields [(tagName, .undefined)], .fields [("a", .undefined)]]

/-- The record with a field `$term` keeps its field; the other record comes back empty.  The item
reads as undefined again: the reader leaves a hole at its position, and a list is the values that
are read from its positions. -/
theorem decode_encode_eq_iff_undefined :
    IsPlain undefinedFields ∧ ¬ Part negativeZero undefinedFields ∧
      ∃ payload, encode undefinedFields = .ok payload ∧
        decode payload
          = some (.list [.undefined, .fields [(tagName, .undefined)], .fields []]) ∧
        decode payload ≠ some undefinedFields := by
  have hrecord (n : String) : IsPlain (.fields [(n, .undefined)]) :=
    .fields rfl (List.forall_mem_singleton.mpr .undefined)
  have hplain : IsPlain undefinedFields := by
    refine .list ?_
    rw [List.forall_mem_cons, List.forall_mem_cons, List.forall_mem_singleton]
    exact ⟨.undefined, hrecord _, hrecord _⟩
  have hfield (n : String) : ¬ Part negativeZero (.fields [(n, .undefined)]) := by
    rintro (_ | _ | ⟨hmem, hpart⟩)
    cases List.mem_singleton.mp hmem
    cases hpart
  have hzero : ¬ Part negativeZero undefinedFields := by
    rintro (_ | ⟨hmem, hpart⟩)
    simp only [List.mem_cons, List.not_mem_nil, or_false] at hmem
    rcases hmem with rfl | rfl | rfl
    · cases hpart
    · exact hfield _ hpart
    · exact hfield _ hpart
  obtain ⟨payload, hencode, hdecode, hiff⟩ := decode_encode_eq_iff hplain hzero
  refine ⟨hplain, hzero, payload, hencode, hdecode, ?_⟩
  rw [Ne, hiff]
  intro hkeeps
  rcases hkeeps [("a", .undefined)] (.item (by simp) .self) with htag | hall
  · cases htag
  · cases hall _ List.mem_cons_self

end Term
end ModuleBuild
