import ModuleBuild.Proofs.Artifact.Relocation
import ModuleBuild.Proofs.Term.Fidelity

/-! # Values that cannot be written

A value can be written exactly if no part of it exists only at compile time, at whatever depth
(`writable_iff`), and a refusal names such a part.
-/
namespace ModuleBuild
namespace Term

variable {f : Foreign}

mutual

theorem part_of_tag_error : ∀ v : Value, tag v = .error f → Part (.foreign f) v
  | .undefined, h | .null, h | .bool _, h | .number _, h | .bigint _, h | .text _, h => by
    rw [tag] at h
    cases h
  | .list vs, h => by
    obtain ⟨v, hv, hpart⟩ := part_of_tagItems_error vs (map_eq_error.mp h)
    exact .item hv hpart
  | .fields fs, h => by
    have hfs : tagFields fs = .error f := by
      rw [tag] at h
      split at h <;> exact map_eq_error.mp h
    obtain ⟨e, he, hpart⟩ := part_of_tagFields_error fs hfs
    exact .field he hpart
  | .foreign g, h => by
    rw [tag] at h
    cases h
    exact .self

theorem part_of_tagItems_error : ∀ vs : List Value, tagItems vs = .error f →
    ∃ v ∈ vs, Part (.foreign f) v
  | [], h => by
    rw [tagItems] at h
    cases h
  | v :: rest, h => by
    rw [List.exists_mem_cons_iff]
    rcases bind_eq_error.mp h with hv | ⟨j, -, h⟩
    · exact Or.inl (part_of_tag_error v hv)
    · rcases bind_eq_error.mp h with hrest | ⟨js, -, h⟩
      · exact Or.inr (part_of_tagItems_error rest hrest)
      · cases h

theorem part_of_tagFields_error : ∀ fs : List (String × Value), tagFields fs = .error f →
    ∃ e ∈ fs, Part (.foreign f) e.2
  | [], h => by
    rw [tagFields] at h
    cases h
  | (n, v) :: rest, h => by
    rw [List.exists_mem_cons_iff]
    rcases bind_eq_error.mp h with hv | ⟨j, -, h⟩
    · exact Or.inl (part_of_tag_error v hv)
    · rcases bind_eq_error.mp h with hrest | ⟨ms, -, h⟩
      · exact Or.inr (part_of_tagFields_error rest hrest)
      · cases h

end

end Term
end ModuleBuild
