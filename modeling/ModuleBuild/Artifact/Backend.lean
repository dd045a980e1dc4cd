import ModuleBuild.Value.Basic

/-! # Backend flags

The values of the `compile` attribute: flags, lists of flags at any depth, and
records that switch flags on or give them values.
-/
namespace ModuleBuild

/-- The flags that a record field stands for. -/
def fieldFlag : String × Value → Value
  | (n, .bool true) => .text n
  | (n, v) => .fields [(n, v)]

mutual

/-- The flags that a value stands for. -/
def flagsOf : Value → List Value
  | .list items => flagsOfAll items
  | .fields fs => fs.map fieldFlag
  | .foreign (.object _ _ _) => []
  | v => [v]

/-- The flags that several values stand for. -/
def flagsOfAll : List Value → List Value
  | [] => []
  | v :: rest => flagsOf v ++ flagsOfAll rest

end

/-- Whether a flag is among some flags. -/
def hasFlag (name : String) (flags : List Value) : Bool :=
  flags.any fun
    | .text n => n = name
    | _ => false

/-- What the backend is asked for. -/
structure BackendOptions where
  flags : List Value
  /-- Keep the definitions in a chunk of their own. -/
  debugInfo : Bool
  /-- Leave the source path out. -/
  deterministic : Bool

/-- The options that the values of the `compile` attribute ask for. -/
def BackendOptions.ofValues (values : List Value) : BackendOptions :=
  let flags := flagsOfAll values
  { flags
    debugInfo := hasFlag "debug_info" flags
    deterministic := hasFlag "deterministic" flags }

end ModuleBuild
