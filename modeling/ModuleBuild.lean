import ModuleBuild.Artifact.Documentation
import ModuleBuild.Config
import ModuleBuild.Form.Eval
import ModuleBuild.Form.Reader
import ModuleBuild.Yaml.Schema
import ModuleBuild.Proofs.Artifact.Consistency
import ModuleBuild.Proofs.Artifact.Shape
import ModuleBuild.Proofs.Form.Ledger
import ModuleBuild.Proofs.Form.Observation
import ModuleBuild.Proofs.Form.Reports
import ModuleBuild.Proofs.Form.Closing
import ModuleBuild.Proofs.Registry.History
import ModuleBuild.Proofs.Registry.Interleaving
import ModuleBuild.Proofs.Artifact.Container
import ModuleBuild.Proofs.Artifact.Layout
import ModuleBuild.Proofs.Definition.History
import ModuleBuild.Proofs.Attribute.Order
import ModuleBuild.Proofs.Typespec.Merge
import ModuleBuild.Proofs.Typespec.Conservation
import ModuleBuild.Proofs.Definition.Exports
import ModuleBuild.Proofs.Definition.Reordering
import ModuleBuild.Proofs.Term.Fidelity
import ModuleBuild.Proofs.Form.AfterHooks
import ModuleBuild.Proofs.Form.Documentation
import ModuleBuild.Proofs.Form.Rejection
import ModuleBuild.Proofs.Form.Declarations
import ModuleBuild.Proofs.Form.Portability
import ModuleBuild.Proofs.Form.Stack
import ModuleBuild.Proofs.Failure.Search
import ModuleBuild.Proofs.Attribute.Sections
import ModuleBuild.Proofs.Registry.Redefinition
import ModuleBuild.Proofs.Artifact.Injection
import ModuleBuild.Proofs.Artifact.Tiling
import ModuleBuild.Proofs.Form.Rounds
import ModuleBuild.Proofs.Form.Passes
import ModuleBuild.Proofs.Artifact.Document
import ModuleBuild.Proofs.Typespec.Translation
import ModuleBuild.Proofs.Artifact.Encodable
import ModuleBuild.Proofs.Form.Unwinding
import ModuleBuild.Proofs.Typespec.OptionalCallbacks
import ModuleBuild.Proofs.Config
import ModuleBuild.Proofs.Definition.Sorted
import ModuleBuild.Proofs.Typespec.Incremental
import ModuleBuild.Proofs.Artifact.Flags
import ModuleBuild.Proofs.Template
