import ModuleBuild.Failure.Basic

/-! # Compilation phases

A module passes through its phases in order, and may be closed from any of them.
-/
namespace ModuleBuild

/-- The stages of compiling a module. -/
inductive Phase where
  | evaluating
  | beforeHooks
  | assembling
  | building
  | afterHooks
  | closed
  deriving DecidableEq, Repr

namespace Phase

/-- All phases, in order. -/
def all : List Phase := [evaluating, beforeHooks, assembling, building, afterHooks, closed]

/-- The name of a phase. -/
def name : Phase → String
  | evaluating => "evaluating"
  | beforeHooks => "before-hooks"
  | assembling => "assembling"
  | building => "building"
  | afterHooks => "after-hooks"
  | closed => "closed"

/-- The phase with a name. -/
def ofName? (n : String) : Option Phase := all.find? fun p => p.name = n

/-- The phase that follows. -/
def next? : Phase → Option Phase
  | evaluating => some beforeHooks
  | beforeHooks => some assembling
  | assembling => some building
  | building => some afterHooks
  | afterHooks => some closed
  | closed => none

/-- Definitions are accepted while the body and the hooks before compilation
run. -/
def canDefine : Phase → Bool
  | evaluating => true
  | beforeHooks => true
  | _ => false

/-- A move from one phase to another. -/
abbrev Move : Type := Phase × Phase

/-- Go on to the phase that follows, and to no other. -/
def advance (p : Phase) (module : String) (target : Phase) : Except Condition Move :=
  if p.next? = some target then .ok (p, target)
  else .error (.transitionInvalid module p.name target.name)

/-- Go on to the phase with a name; no phase is followed by an unknown one. -/
def advanceTo (p : Phase) (module : String) (target : String) : Except Condition Move :=
  match ofName? target with
  | some t => p.advance module t
  | none => .error (.transitionInvalid module p.name target)

/-- Jump to the end, unless it has been reached. -/
def close? (p : Phase) : Option Move := if p = closed then none else some (p, closed)

end Phase
end ModuleBuild
