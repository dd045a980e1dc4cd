import ModuleBuild.Value.Basic

/-! # Compiler options

Options are given in layers.  A layer may leave any option open, and a later layer
goes before an earlier one.
-/
namespace ModuleBuild

/-- The options of a compiler, with flags and a directory of some types. -/
structure Options (φ δ : Type) where
  /-- Collect documentation. -/
  docs : φ
  /-- Do not warn about modules that are loaded already. -/
  ignoreModuleConflict : φ
  /-- Leave specs and types out of artifacts. -/
  isInternal : φ
  /-- The directory that source paths are made relative to. -/
  relativeTo : δ
  deriving DecidableEq, Repr

/-- Options of which any may be left open. -/
abbrev OptionLayer (φ δ : Type) : Type := Options (Option φ) (Option δ)

namespace Options

variable {φ δ : Type}

/-- A layer that leaves everything open. -/
def unset : OptionLayer φ δ := ⟨none, none, none, none⟩

/-- Options with all flags and directories changed. -/
def map {ψ ε : Type} (o : Options φ δ) (f : φ → ψ) (g : δ → ε) : Options ψ ε where
  docs := f o.docs
  ignoreModuleConflict := f o.ignoreModuleConflict
  isInternal := f o.isInternal
  relativeTo := g o.relativeTo

/-- Options with a layer over them. -/
def overlay (base : Options φ δ) (layer : OptionLayer φ δ) : Options φ δ where
  docs := layer.docs.getD base.docs
  ignoreModuleConflict := layer.ignoreModuleConflict.getD base.ignoreModuleConflict
  isInternal := layer.isInternal.getD base.isInternal
  relativeTo := layer.relativeTo.getD base.relativeTo

/-- Options with layers over them, the last one on top. -/
def resolve (base : Options φ δ) (layers : List (OptionLayer φ δ)) : Options φ δ :=
  layers.foldl overlay base

end Options

/-- The options of a compiler. -/
abbrev CompilerOptions : Type := Options Bool String

/-- The options that hold when nothing is asked for, in a working directory. -/
def CompilerOptions.default (directory : String) : CompilerOptions where
  docs := true
  ignoreModuleConflict := false
  isInternal := false
  relativeTo := directory

/-- The layer that a record sets: a field without a value leaves its option open. -/
def OptionLayer.ofValue (v : Value) : OptionLayer Value Value where
  docs := (v.get "docs").ifGiven
  ignoreModuleConflict := (v.get "ignoreModuleConflict").ifGiven
  isInternal := (v.get "internal").ifGiven
  relativeTo := (v.get "relativeTo").ifGiven

/-- The options that values set: every value counts as a flag, and what is no text as no
directory. -/
def CompilerOptions.ofValues (o : Options Value Value) : CompilerOptions :=
  o.map Value.truth fun v => v.asText?.getD ""

end ModuleBuild
