import ModuleBuild.Artifact.Info
import ModuleBuild.Docs

/-! # Documentation of a compiled module

The documentation that an artifact carries, read back from its `Docs` chunk.
-/
namespace ModuleBuild

/-- The documentation of an artifact: none if it has no `Docs` chunk, or if that
holds something else. -/
def Artifact.documentation (a : Artifact) : Except ContentError (Option DocsDocument) :=
  match a.read? "Docs" with
  | none => .ok none
  | some payload =>
    match Term.decode payload with
    | none => .error .unreadable
    | some v => .ok (DocsDocument.ofValue? v)

end ModuleBuild
