import ModuleBuild.Proofs.Outcome
import ModuleBuild.Failure.Basic

/-! # Failures that can be described

Everything that is thrown can be described, except a value that has no text
(`Failure.describe_eq_error_iff`).  The attempt to describe such a value fails in turn, and with
something that can be described.
-/
namespace ModuleBuild
namespace Failure

/-- The failure can be described. -/
def HasWords (f : Failure) : Prop := ∃ text, f.describe = .ok text

variable {f e : Failure}

/-- **Only values without a text cannot be described.** -/
theorem describe_eq_error_iff : f.describe = .error e ↔
    ∃ v fault, f = .thrown v ∧ v.toText = .error fault ∧ e = .ofFault fault := by
  constructor
  · intro h
    cases f with
    | thrown v =>
      cases htext : v.toText with
      | ok text =>
        rw [describe, htext] at h
        cases h
      | error fault =>
        rw [describe, htext] at h
        cases h
        exact ⟨v, fault, rfl, htext, rfl⟩
    | _ => cases h
  · rintro ⟨v, fault, rfl, htext, rfl⟩
    rw [describe, htext]
    rfl

theorem not_hasWords_iff : ¬f.HasWords ↔ ∃ e, f.describe = .error e := by
  cases h : f.describe with
  | ok text => exact iff_of_false (fun hf => hf ⟨text, h⟩) nofun
  | error e =>
    refine iff_of_true ?_ ⟨e, rfl⟩
    rintro ⟨text, htext⟩
    cases h.symm.trans htext

theorem hasWords_ofFault (fault : TextFault) : (ofFault fault).HasWords := ⟨_, rfl⟩

/-- What describing a failure fails with can be described. -/
theorem hasWords_of_describe_eq_error (h : f.describe = .error e) : e.HasWords := by
  obtain ⟨v, fault, -, -, rfl⟩ := describe_eq_error_iff.mp h
  exact hasWords_ofFault fault

section OfHook

variable {phase : String} {site : Frame} {frames : List Frame} {location : Option Location}

/-- A hook that fails with what can be described fails with a condition. -/
theorem ofHook_of_describe {reason : String} (h : f.describe = .ok reason) :
    ofHook phase site frames f location
      = condition (.hookFailed phase site reason) location frames (some site) f.asCause := by
  rw [ofHook, h, saying]

/-- Otherwise it fails with the attempt to describe it. -/
theorem ofHook_of_describe_eq_error (h : f.describe = .error e) :
    ofHook phase site frames f location = e := by
  rw [ofHook, h, saying]

theorem hasWords_ofHook : (ofHook phase site frames f location).HasWords := by
  cases h : f.describe with
  | ok reason =>
    rw [ofHook_of_describe h]
    exact ⟨_, rfl⟩
  | error e =>
    rw [ofHook_of_describe_eq_error h]
    exact hasWords_of_describe_eq_error h

end OfHook
end Failure
end ModuleBuild
