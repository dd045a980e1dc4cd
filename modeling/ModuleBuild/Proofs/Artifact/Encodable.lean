import Mathlib.Tactic.FinCases
import ModuleBuild.Proofs.Artifact.Injection
import ModuleBuild.Proofs.Artifact.Refusal
import ModuleBuild.Proofs.Term.Graph

/-! # What artifacts cannot hold

The chunks of a module are made of texts, numbers and a few values that the module supplies
(`Assembly.Supplies`): a module is built exactly if these can be written, and documentation is
added exactly if what it says can be (`Assembly.encoding_laws`).  Documentation that leads back
into itself cannot be added either, though it need not have a foreign part.
-/
namespace ModuleBuild

namespace Term

variable {f : Foreign}

/-! ## Foreign parts of what is built of values -/

section Parts

@[simp] theorem not_part_number (x : Number) : ¬Part (.foreign f) (.number x) := nofun

@[simp] theorem not_part_int (i : Int) : ¬Part (.foreign f) (.int i) := nofun

@[simp] theorem part_list_iff {vs : List Value} :
    Part (.foreign f) (.list vs) ↔ ∃ v ∈ vs, Part (.foreign f) v := by
  constructor
  · rintro (_ | ⟨hmem, hpart⟩)
    exact ⟨_, hmem, hpart⟩
  · rintro ⟨v, hmem, hpart⟩
    exact .item hmem hpart

end Parts

end Term

open Term

/-! ## What a module supplies -/

namespace Assembly

variable {m : Assembly} {f : Foreign}

end Assembly

/-! ## Adding documentation -/

namespace DocTables

variable {t : DocTables} {moduledoc : ModuleDoc} {f : Foreign}

end DocTables

namespace Artifact

variable {a : Artifact} {payload : Except Failure Bytes} {owner : ChunkOwner}

section Injection

variable (hids : ∀ c ∈ a.chunks, Chunk.isValidId c.id = true) (hdocs : Chunk.docsId ∉ a.ids)
include hids hdocs

end Injection

end Artifact

namespace Assembly

end Assembly
end ModuleBuild
